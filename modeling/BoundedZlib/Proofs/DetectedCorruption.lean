import BoundedZlib.Proofs.MalformedInput
import BoundedZlib.Proofs.RoundTrip
import BoundedZlib.Proofs.Truncation

/-!
# Corruption that is detected

One byte that is changed moves the sum of all bytes by less than the modulus of the
checksum, and a length of stored bytes by less than its complement can follow.  So no
single byte behind the opening of a stored block can be changed unnoticed, and of any
stream none of the last four bytes.
-/

namespace BoundedZlib

theorem ByteOrder.littleDecode_set_ne {bytes : Bytes} {place : Nat} {old byte : UInt8}
    (hold : bytes[place]? = some old) (hne : byte ≠ old) :
    littleDecode (bytes.set place byte) ≠ littleDecode bytes := by
  induction bytes generalizing place with
  | nil => cases hold
  | cons first rest ih =>
      cases place with
      | zero =>
          rw [List.getElem?_cons_zero, Option.some.injEq] at hold
          rw [List.set_cons_zero, littleDecode, littleDecode, hold]
          intro hsame
          exact hne (UInt8.toNat_inj.mp (Nat.add_right_cancel hsame))
      | succ place =>
          rw [List.getElem?_cons_succ] at hold
          rw [List.set_cons_succ, littleDecode, littleDecode]
          intro hsame
          have hrest := ih hold
          omega

namespace Format

/-!
## Checksums
-/

theorem byteSum_append (front back : Bytes) :
    byteSum (front ++ back) = byteSum front + byteSum back := by
  simp [byteSum]

theorem checksum_set_ne {content : Bytes} {place : Nat} {old byte : UInt8}
    (hold : content[place]? = some old) (hne : byte ≠ old) :
    checksum (content.set place byte) ≠ checksum content := by
  rcases List.getElem?_eq_some_iff.mp hold with ⟨hlt, hget⟩
  have hbefore : byteSum content =
      byteSum (content.take place) + (old.toNat + byteSum (content.drop (place + 1))) := by
    conv => lhs; rw [← List.take_append_drop place content, List.drop_eq_getElem_cons hlt, hget]
    rw [byteSum_append]
    rfl
  have hafter : byteSum (content.set place byte) =
      byteSum (content.take place) + (byte.toNat + byteSum (content.drop (place + 1))) := by
    rw [List.set_eq_take_append_cons_drop, if_pos hlt, byteSum_append]
    rfl
  have hbytes : byte.toNat ≠ old.toNat := fun hsame => hne (UInt8.toNat_inj.mp hsame)
  have hbyte := byte.toNat_lt
  have hold' := old.toNat_lt
  -- The low halves differ: the sums do, by less than the modulus.
  have hlow : (1 + byteSum (content.set place byte)) % 65521 ≠ (1 + byteSum content) % 65521 := by
    rw [hbefore, hafter]
    omega
  unfold checksum
  omega

theorem encode_checksum_ne {content other : Bytes} (hne : checksum content ≠ checksum other) :
    ByteOrder.big.encode 4 (checksum content) ≠ ByteOrder.big.encode 4 (checksum other) := by
  intro hsame
  have hdecode := congrArg ByteOrder.big.decode hsame
  rw [ByteOrder.decode_encode, ByteOrder.decode_encode, Nat.mod_eq_of_lt (checksum_lt content),
    Nat.mod_eq_of_lt (checksum_lt other)] at hdecode
  exact hne hdecode

theorem Stream.malformed {front content trailer : Bytes}
    (hstream : Stream (front ++ ByteOrder.big.encode 4 (checksum content)) content)
    (hlength : trailer.length = 4)
    (hne : trailer ≠ ByteOrder.big.encode 4 (checksum content)) :
    Malformed (Bits.ofBytes (front ++ trailer)) content := by
  cases hstream with
  | intro hopening hlast hpadding haligned hbits =>
      rw [Bits.ofBytes_append, List.append_left_inj] at hbits
      rw [Bits.ofBytes_append, hbits]
      exact .checksum hopening hlast hpadding haligned hlength hne

/-!
## Lengths of stored bytes
-/

theorem malformed_lengths {first second : Bytes} (hfirst : first.length = 2)
    (hsecond : second.length = 2)
    (hmismatch : ByteOrder.littleDecode first + ByteOrder.littleDecode second ≠ 65535) :
    Malformed (Bits.ofBytes ([0x78, 0x01, 0x01] ++ first ++ second)) [] := by
  rcases BitReader.reads_nat.mp (BitReader.reads_two_bytes hfirst) with ⟨hlength, hfirst'⟩
  rcases BitReader.reads_nat.mp (BitReader.reads_two_bytes hsecond) with ⟨hcomplement, hsecond'⟩
  have hfault : OpeningFault 16 _ :=
    @OpeningFault.stored 16 true (List.replicate 5 false) _ _ (by decide) (by decide) hlength
      hcomplement hmismatch
  have hopening : Bits.ofBytes [0x78, 0x01, 0x01] = Bits.ofBytes [0x78, 0x01] ++
      ([true, false, false] ++ List.replicate 5 false) := rfl
  rw [Bits.ofBytes_append, Bits.ofBytes_append, hfirst', hsecond', hopening]
  simpa using Malformed.block openStream_stored (.opening hfault)

/-!
## A byte that is changed
-/

theorem set_append_cases {front back : Bytes} {place : Nat} {old : UInt8}
    (hold : (front ++ back)[place]? = some old) (byte : UInt8) :
    front[place]? = some old ∧
        (front ++ back).set place byte = front.set place byte ++ back ∨
      ∃ later, place = front.length + later ∧ back[later]? = some old ∧
        (front ++ back).set place byte = front ++ back.set later byte := by
  rcases Nat.lt_or_ge place front.length with hlt | hge
  · rw [List.getElem?_append_left hlt] at hold
    exact Or.inl ⟨hold, List.set_append_left _ _ hlt⟩
  · rw [List.getElem?_append_right hge] at hold
    exact Or.inr ⟨_, (Nat.add_sub_cancel' hge).symm, hold, List.set_append_right _ _ hge⟩

section Changes

variable {first second data trailer : Bytes} {place : Nat} {old byte : UInt8}

/-- A change behind the opening of the block is one of a length, of data or of the checksum. -/
theorem storedParts_set (hplace : 3 ≤ place)
    (hold : (storedParts first second data trailer)[place]? = some old) (byte : UInt8) :
    ∃ later,
      first[later]? = some old ∧
        (storedParts first second data trailer).set place byte =
          storedParts (first.set later byte) second data trailer ∨
      second[later]? = some old ∧
        (storedParts first second data trailer).set place byte =
          storedParts first (second.set later byte) data trailer ∨
      data[later]? = some old ∧
        (storedParts first second data trailer).set place byte =
          storedParts first second (data.set later byte) trailer ∨
      trailer[later]? = some old ∧
        (storedParts first second data trailer).set place byte =
          storedParts first second data (trailer.set later byte) := by
  unfold storedParts at hold ⊢
  rcases set_append_cases hold byte with ⟨hopening, _⟩ | ⟨later, _, hold, hset⟩
  · rw [List.getElem?_eq_none hplace] at hopening
    cases hopening
  rw [hset]
  rcases set_append_cases hold byte with ⟨hfirst, hset⟩ | ⟨later, _, hold, hset⟩
  · exact ⟨_, Or.inl ⟨hfirst, by rw [hset]⟩⟩
  rw [hset]
  rcases set_append_cases hold byte with ⟨hsecond, hset⟩ | ⟨later, _, hold, hset⟩
  · exact ⟨_, Or.inr (Or.inl ⟨hsecond, by rw [hset]⟩)⟩
  rw [hset]
  rcases set_append_cases hold byte with ⟨hdata, hset⟩ | ⟨later, _, htrailer, hset⟩
  · exact ⟨_, Or.inr (Or.inr (Or.inl ⟨hdata, by rw [hset]⟩))⟩
  · exact ⟨_, Or.inr (Or.inr (Or.inr ⟨htrailer, by rw [hset]⟩))⟩

theorem malformed_storedParts (hlength : data.length ≤ 65535) (hfour : trailer.length = 4)
    (hne : trailer ≠ ByteOrder.big.encode 4 (checksum data))
    (hfirst : first = ByteOrder.little.encode 2 data.length)
    (hsecond : second = ByteOrder.little.encode 2 (65535 - data.length)) :
    Malformed (Bits.ofBytes (storedParts first second data trailer)) data := by
  have hstream := stream_storedStream hlength
  rw [storedStream, storedParts, ← hfirst, ← hsecond] at hstream
  simp only [← List.append_assoc] at hstream
  have hmalformed := hstream.malformed hfour hne
  simp only [List.append_assoc] at hmalformed
  exact hmalformed

theorem malformed_lengths_of_storedParts (hfirst : first.length = 2) (hsecond : second.length = 2)
    (hmismatch : ByteOrder.littleDecode first + ByteOrder.littleDecode second ≠ 65535) :
    ∃ fault, fault <+: Bits.ofBytes (storedParts first second data trailer) ∧
      Malformed fault [] := by
  refine ⟨_, ?_, malformed_lengths hfirst hsecond hmismatch⟩
  rw [storedParts, ← List.append_assoc, ← List.append_assoc,
    Bits.ofBytes_append _ (data ++ trailer)]
  exact List.prefix_append _ _

/--
What follows the opening of a stored block is malformed once one byte of it is changed, and
adds no more content than before.
-/
theorem malformed_storedStream_set (hlength : data.length ≤ 65535) (hplace : 3 ≤ place)
    (hold : (storedStream data)[place]? = some old) (hne : byte ≠ old) :
    ∃ fault content, fault <+: Bits.ofBytes ((storedStream data).set place byte) ∧
      Malformed fault content ∧ content.length ≤ data.length := by
  have hsum : ByteOrder.littleDecode (ByteOrder.little.encode 2 data.length) +
      ByteOrder.littleDecode (ByteOrder.little.encode 2 (65535 - data.length)) = 65535 := by
    have hdecode := ByteOrder.decode_encode .little 2
    simp only [ByteOrder.decode] at hdecode
    rw [hdecode, hdecode]
    omega
  unfold storedStream at hold ⊢
  rcases storedParts_set hplace hold byte with
    ⟨later, ⟨hfirst, hset⟩ | ⟨hsecond, hset⟩ | ⟨hdata, hset⟩ | ⟨htrailer, hset⟩⟩
  · have hother := ByteOrder.littleDecode_set_ne hfirst hne
    rw [hset]
    rcases malformed_lengths_of_storedParts
      (List.length_set.trans (ByteOrder.length_encode _ _ _)) (ByteOrder.length_encode _ _ _)
      (fun hsame => hother (Nat.add_right_cancel (hsame.trans hsum.symm))) with
      ⟨fault, hbegins, hfault⟩
    exact ⟨fault, [], hbegins, hfault, Nat.zero_le _⟩
  · have hother := ByteOrder.littleDecode_set_ne hsecond hne
    rw [hset]
    rcases malformed_lengths_of_storedParts (ByteOrder.length_encode _ _ _)
      (List.length_set.trans (ByteOrder.length_encode _ _ _))
      (fun hsame => hother (Nat.add_left_cancel (hsame.trans hsum.symm))) with
      ⟨fault, hbegins, hfault⟩
    exact ⟨fault, [], hbegins, hfault, Nat.zero_le _⟩
  · have hsize : (data.set later byte).length = data.length := List.length_set
    have hother := encode_checksum_ne (checksum_set_ne hdata hne).symm
    rw [hset]
    exact ⟨_, _, List.prefix_rfl,
      malformed_storedParts (by rw [hsize]; exact hlength) (ByteOrder.length_encode _ _ _) hother
        (congrArg _ hsize.symm) (by rw [hsize]), Nat.le_of_eq hsize⟩
  · have hother : (ByteOrder.big.encode 4 (checksum data)).set later byte ≠
        ByteOrder.big.encode 4 (checksum data) := by
      intro hsame
      have hlater := congrArg (fun bytes => bytes[later]?) hsame
      rw [List.getElem?_set_self (List.getElem?_eq_some_iff.mp htrailer).choose, htrailer,
        Option.some.injEq] at hlater
      exact hne hlater
    rw [hset]
    exact ⟨_, _, List.prefix_rfl,
      malformed_storedParts hlength (List.length_set.trans (ByteOrder.length_encode _ _ _)) hother
        rfl rfl, Nat.le_refl _⟩

end Changes

end Format

/-!
## Calls
-/

/-- Inflating to this size, into new memory or into a buffer, tells that the input is corrupted. -/
def Inflate.FindsCorrupted (input : Bytes) (size : Nat) : Prop :=
  inflateToSize input size = .error (.error (.corrupted "deflate decompression error")) ∧
    ∀ buffer : Bytes, buffer.length = size →
      inflateWith Decoder.engine (Inflate.maxSteps ⟨input.length, size⟩) input buffer =
        some (inflate input buffer) ∧
      (inflate input buffer).outcome = .error (.corrupted "deflate decompression error")

theorem Inflate.findsCorrupted_of_malformed {input content : Bytes} {fault : List Bool} {size : Nat}
    (hlengths : input.length ≤ 4294967295 ∧ size ≤ 4294967295)
    (hbegins : fault <+: Bits.ofBytes input) (hfault : Format.Malformed fault content)
    (hsize : content.length ≤ size) :
    FindsCorrupted input size := by
  rcases Inflater.hasFailed_iff_malformed.mpr ⟨fault, hbegins, hfault⟩ with ⟨hfailed, hcontent⟩
  apply inflate_of_hasFailed hlengths hfailed
  apply Nat.le_trans (Nat.mul_div_le _ _)
  rw [← Array.length_toList, hcontent]
  exact hsize

theorem inflate_storedStream {data : Bytes} (hlength : data.length ≤ 65535) :
    inflateToSize (Format.storedStream data) data.length = .ok data := by
  have hstored := Format.length_storedStream data
  rw [inflateToSize_eq_ok]
  refine ⟨⟨by omega, by omega⟩, rfl, ?_⟩
  exact Inflater.isFinished_iff_stream.mpr
    ⟨_, [], (List.append_nil _).symm, Format.stream_storedStream hlength⟩

/--
No byte behind the opening of a stored block is changed unnoticed, and of no stream the
last four bytes are.
-/
theorem inflate_detects_corruption :
    (∀ (data : Bytes) (place : Nat) (old byte : UInt8), data.length ≤ 65535 → 3 ≤ place →
      (Format.storedStream data)[place]? = some old → byte ≠ old →
      Inflate.FindsCorrupted ((Format.storedStream data).set place byte) data.length) ∧
    ∀ (stream content buffer trailer : Bytes) (session : Decoder),
      inflateToSize stream content.length = .ok content →
      buffer.length = content.length →
      (inflate stream buffer).session? = some (.ok session) →
      session.totalIn = stream.length →
      trailer.length = 4 → trailer ≠ stream.drop (stream.length - 4) →
      Inflate.FindsCorrupted (stream.take (stream.length - 4) ++ trailer) content.length := by
  constructor
  · intro data place old byte hlength hplace hold hne
    have hset : ((Format.storedStream data).set place byte).length = data.length + 11 :=
      List.length_set.trans (Format.length_storedStream data)
    rcases Format.malformed_storedStream_set hlength hplace hold hne with
      ⟨fault, content, hbegins, hfault, hsize⟩
    exact Inflate.findsCorrupted_of_malformed ⟨by omega, by omega⟩ hbegins hfault hsize
  · intro stream content buffer trailer session haccepted hbuffer hsession hconsumed hfour hne
    have hlengths := lengths_of_inflateToSize haccepted
    have hstream := stream_of_inflate haccepted hbuffer hsession hconsumed
    rcases hstream.trailer with ⟨front, hfront⟩
    have hchecksum := ByteOrder.length_encode .big 4 (Format.checksum content)
    subst hfront
    rw [List.length_append, hchecksum] at hlengths
    rw [List.length_append, hchecksum, Nat.add_sub_cancel, List.drop_left] at hne
    rw [List.length_append, hchecksum, Nat.add_sub_cancel, List.take_left]
    have hfault := hstream.malformed hfour hne
    apply Inflate.findsCorrupted_of_malformed _ List.prefix_rfl hfault (Nat.le_refl _)
    rw [List.length_append, hfour]
    exact hlengths

/--
The stream that stores one byte is not accepted with another length, another byte or
another checksum.
-/
theorem inflate_changed_letter :
    Inflate.FindsCorrupted
        [0x78, 0x01, 0x01, 0x01, 0x01, 0xfe, 0xff, 0x61, 0x00, 0x62, 0x00, 0x62] 1 ∧
      Inflate.FindsCorrupted
        [0x78, 0x01, 0x01, 0x01, 0x00, 0xfe, 0xff, 0x62, 0x00, 0x62, 0x00, 0x62] 1 ∧
      Inflate.FindsCorrupted
        [0x78, 0x01, 0x01, 0x01, 0x00, 0xfe, 0xff, 0x61, 0x00, 0x62, 0x01, 0x63] 1 := by
  have hstored : Format.storedStream [0x61] =
      [0x78, 0x01, 0x01, 0x01, 0x00, 0xfe, 0xff, 0x61, 0x00, 0x62, 0x00, 0x62] := by decide
  have hlength : (Format.storedStream [0x61]).set 4 0x01 =
      [0x78, 0x01, 0x01, 0x01, 0x01, 0xfe, 0xff, 0x61, 0x00, 0x62, 0x00, 0x62] := by decide
  have hbyte : (Format.storedStream [0x61]).set 7 0x62 =
      [0x78, 0x01, 0x01, 0x01, 0x00, 0xfe, 0xff, 0x62, 0x00, 0x62, 0x00, 0x62] := by decide
  have hchecksum : (Format.storedStream [0x61]).take 8 ++ [0x00, 0x62, 0x01, 0x63] =
      [0x78, 0x01, 0x01, 0x01, 0x00, 0xfe, 0xff, 0x61, 0x00, 0x62, 0x01, 0x63] := by decide
  have hreleased : (inflate (Format.storedStream [0x61]) [0xaa]).session?.map
      (Except.map Decoder.totalIn) = some (.ok 12) := by
    rw [hstored]
    decide +kernel
  rcases inflate_detects_corruption with ⟨hchanged, htrailer⟩
  rw [← hlength, ← hbyte, ← hchecksum]
  refine ⟨?_, ?_, ?_⟩
  · exact hchanged [0x61] 4 0x00 0x01 (by decide) (by decide) (by decide) (by decide)
  · exact hchanged [0x61] 7 0x61 0x62 (by decide) (by decide) (by decide) (by decide)
  · rcases Option.map_eq_some_iff.mp hreleased with ⟨released, hsession, htotal⟩
    cases released with
    | error fault => cases htotal
    | ok session =>
        injection htotal with htotal
        exact htrailer (Format.storedStream [0x61]) [0x61] [0xaa] [0x00, 0x62, 0x01, 0x63] session
          (inflate_storedStream (by decide)) rfl hsession htotal rfl (by decide)

end BoundedZlib
