import BoundedZlib.Proofs.Numbers
import BoundedZlib.Resource.Header

/-!
# Headers of resources

Reading a header and writing one undo each other: a header is read exactly from data
that starts with what is written for it.  Data has no header if it does not start
with the magic number, and a bad one if it starts with it and ends too early.
-/

namespace BoundedZlib

namespace ByteOrder

theorem littleDecode_lt (bytes : Bytes) : littleDecode bytes < 256 ^ bytes.length := by
  induction bytes with
  | nil => exact Nat.one_pos
  | cons byte rest ih =>
      have hbyte := byte.toNat_lt
      rw [littleDecode, List.length_cons, Nat.pow_succ]
      omega

theorem decode_lt (order : ByteOrder) (bytes : Bytes) :
    order.decode bytes < 256 ^ bytes.length := by
  cases order with
  | little => exact littleDecode_lt bytes
  | big =>
      rw [← List.length_reverse]
      exact littleDecode_lt bytes.reverse

theorem encode_injective {order : ByteOrder} {width number other : Nat}
    (hnumber : number < 256 ^ width)
    (hother : other < 256 ^ width)
    (hsame : order.encode width number = order.encode width other) :
    number = other := by
  have hvalue := congrArg order.decode hsame
  rw [decode_encode, decode_encode, Nat.mod_eq_of_lt hnumber, Nat.mod_eq_of_lt hother] at hvalue
  exact hvalue

end ByteOrder

namespace Resource

namespace Header

/-!
## Numbers at places
-/

section Numbers

variable {bytes : Bytes} {order : ByteOrder} {place width : Nat}

theorem length_field (hbound : place + width ≤ bytes.length) :
    ((bytes.drop place).take width).length = width := by
  rw [List.length_take, List.length_drop]
  omega

theorem encode_numberAt (hbound : place + width ≤ bytes.length) :
    order.encode width (numberAt bytes order place width) = (bytes.drop place).take width := by
  have hback := ByteOrder.encode_decode order ((bytes.drop place).take width)
  rw [length_field hbound] at hback
  exact hback

theorem numberAt_lt (hbound : place + width ≤ bytes.length) :
    numberAt bytes order place width < 256 ^ width := by
  have hlt := ByteOrder.decode_lt order ((bytes.drop place).take width)
  rw [length_field hbound] at hlt
  exact hlt

theorem encode_word (hbound : place + 4 ≤ bytes.length) :
    order.encode 4 (UInt32.ofNat (numberAt bytes order place 4)).toNat =
      (bytes.drop place).take 4 := by
  rw [UInt32.toNat_ofNat_of_lt' (numberAt_lt hbound), encode_numberAt hbound]

theorem encode_doubleWord (hbound : place + 8 ≤ bytes.length) :
    order.encode 8 (UInt64.ofNat (numberAt bytes order place 8)).toNat =
      (bytes.drop place).take 8 := by
  rw [UInt64.toNat_ofNat_of_lt' (numberAt_lt hbound), encode_numberAt hbound]

end Numbers

section Reading

variable {bytes rest : Bytes} {order : ByteOrder} {header other : Header} {error : Error}

/-!
## The magic number
-/

def IsMarked (order : ByteOrder) (bytes : Bytes) : Prop :=
  order.encode 4 magicNumber.toNat <+: bytes

theorem hasMagic_iff : hasMagic bytes order = true ↔ IsMarked order bytes := by
  rw [hasMagic, Bool.and_eq_true, decide_eq_true_eq, beq_iff_eq]
  constructor
  · intro h
    rcases h with ⟨hlength, hnumber⟩
    have hback : order.encode 4 (numberAt bytes order 0 4) = (bytes.drop 0).take 4 :=
      encode_numberAt (by omega)
    rw [hnumber, List.drop_zero] at hback
    rw [IsMarked, hback]
    exact List.take_prefix 4 bytes
  · intro h
    have hlength := h.length_le
    rw [ByteOrder.length_encode] at hlength
    have hfront := List.prefix_iff_eq_take.mp h
    rw [ByteOrder.length_encode] at hfront
    rw [numberAt, List.drop_zero, ← hfront, ByteOrder.decode_encode]
    exact ⟨hlength, by decide⟩

/-!
## Writing
-/

/-- Data starts with a complete header. -/
structure Opens (header : Header) (order : ByteOrder) (bytes : Bytes) : Prop where
  magic_eq : header.magic = magicNumber
  written : header.write order <+: bytes

theorem Opens.isMarked (hopens : header.Opens order bytes) : IsMarked order bytes := by
  rcases hopens with ⟨hmagic, hwritten⟩
  rw [write, hmagic] at hwritten
  simp only [List.append_assoc] at hwritten
  exact (List.prefix_append _ _).trans hwritten

theorem Opens.length_le (hopens : header.Opens order bytes) : length ≤ bytes.length := by
  have hle := hopens.written.length_le
  rw [length_write] at hle
  exact hle

theorem write_injective (hsame : header.write order = other.write order) : header = other := by
  have hwidth : ∀ width number number' : Nat, (order.encode width number).length =
      (order.encode width number').length := by
    intro width number number'
    rw [ByteOrder.length_encode, ByteOrder.length_encode]
  rcases header with ⟨magic, size, contentSize, nameOffset, configOffset, terminal⟩
  rcases other with ⟨magic', size', contentSize', nameOffset', configOffset', terminal'⟩
  simp only [write] at hsame
  rcases List.append_inj' hsame rfl with ⟨hsame, hterminal⟩
  rcases List.append_inj' hsame (hwidth _ _ _) with ⟨hsame, hconfig⟩
  rcases List.append_inj' hsame (hwidth _ _ _) with ⟨hsame, hname⟩
  rcases List.append_inj' hsame (hwidth _ _ _) with ⟨hsame, hcontent⟩
  rcases List.append_inj' hsame (hwidth _ _ _) with ⟨hmagic, hsize⟩
  have hmagic := ByteOrder.encode_injective magic.toNat_lt magic'.toNat_lt hmagic
  have hsize := ByteOrder.encode_injective size.toNat_lt size'.toNat_lt hsize
  have hcontent := ByteOrder.encode_injective contentSize.toNat_lt contentSize'.toNat_lt hcontent
  have hname := ByteOrder.encode_injective nameOffset.toNat_lt nameOffset'.toNat_lt hname
  have hconfig := ByteOrder.encode_injective configOffset.toNat_lt configOffset'.toNat_lt hconfig
  rw [UInt32.toNat_inj.mp hmagic, UInt64.toNat_inj.mp hsize, UInt64.toNat_inj.mp hcontent,
    UInt32.toNat_inj.mp hname, UInt32.toNat_inj.mp hconfig, List.head_eq_of_cons_eq hterminal]

theorem Opens.unique (hopens : header.Opens order bytes) (hother : other.Opens order bytes) :
    header = other := by
  have hlength : (header.write order).length = (other.write order).length := by
    rw [length_write, length_write]
  have hfront := List.prefix_of_prefix_length_le hopens.written hother.written
    (Nat.le_of_eq hlength)
  exact write_injective (hfront.eq_of_length hlength)

/-!
## Reading
-/

theorem take_fields (bytes : Bytes) :
    bytes.take 4 ++ (bytes.drop 4).take 8 ++ (bytes.drop 12).take 8 ++ (bytes.drop 20).take 4 ++
      (bytes.drop 24).take 4 ++ (bytes.drop 28).take 1 = bytes.take 29 := by
  simp only [← List.take_add]

theorem exists_opens (hmarked : IsMarked order bytes) (hlength : length ≤ bytes.length) :
    ∃ header, read bytes order = .ok (some header) ∧ header.Opens order bytes := by
  have hbound : 29 ≤ bytes.length := hlength
  have hmagic := hasMagic_iff.mpr hmarked
  unfold read
  rw [hmagic, if_neg (by decide), if_neg (Nat.not_lt.mpr hlength)]
  rw [hasMagic, Bool.and_eq_true, beq_iff_eq] at hmagic
  refine ⟨_, rfl, ?_, ?_⟩
  · show UInt32.ofNat (numberAt bytes order 0 4) = magicNumber
    rw [hmagic.right]
    rfl
  · have hterminal : [bytes.getD 28 0] = (bytes.drop 28).take 1 := by
      rw [List.drop_eq_getElem_cons hbound, List.take_succ_cons, List.take_zero,
        List.getD_eq_getElem?_getD, List.getElem?_eq_getElem hbound, Option.getD_some]
    have hwritten : write
        { magic := UInt32.ofNat (numberAt bytes order 0 4)
          size := UInt64.ofNat (numberAt bytes order 4 8)
          contentSize := UInt64.ofNat (numberAt bytes order 12 8)
          nameOffset := UInt32.ofNat (numberAt bytes order 20 4)
          configOffset := UInt32.ofNat (numberAt bytes order 24 4)
          terminal := bytes.getD 28 0 } order = bytes.take 29 := by
      rw [← take_fields, ← hterminal, write, encode_word (by omega), encode_word (by omega),
        encode_word (by omega), encode_doubleWord (by omega), encode_doubleWord (by omega),
        List.drop_zero]
    rw [hwritten]
    exact List.take_prefix 29 bytes

theorem read_of_not_isMarked (hmarked : ¬ IsMarked order bytes) : read bytes order = .ok none := by
  rw [← hasMagic_iff, Bool.not_eq_true] at hmarked
  rw [read, hmarked]
  rfl

theorem read_of_isMarked_of_lt (hmarked : IsMarked order bytes) (hshort : bytes.length < length) :
    read bytes order =
      .error (.invalidHeader s!"truncated: {bytes.length} of {length} bytes") := by
  rw [read, hasMagic_iff.mpr hmarked, if_neg (by decide), if_pos hshort]

theorem read_eq_some_iff : read bytes order = .ok (some header) ↔ header.Opens order bytes := by
  constructor
  · intro hread
    by_cases hmarked : IsMarked order bytes
    · by_cases hshort : bytes.length < length
      · rw [read_of_isMarked_of_lt hmarked hshort] at hread
        cases hread
      · rcases exists_opens hmarked (Nat.not_lt.mp hshort) with ⟨found, hfound, hopens⟩
        rw [hfound, Except.ok.injEq, Option.some.injEq] at hread
        rw [← hread]
        exact hopens
    · rw [read_of_not_isMarked hmarked] at hread
      cases hread
  · intro hopens
    rcases exists_opens hopens.isMarked hopens.length_le with ⟨found, hfound, hopens'⟩
    rw [hfound, hopens'.unique hopens]

theorem read_eq_none_iff : read bytes order = .ok none ↔ ¬ IsMarked order bytes := by
  constructor
  · intro hread hmarked
    by_cases hshort : bytes.length < length
    · rw [read_of_isMarked_of_lt hmarked hshort] at hread
      cases hread
    · rcases exists_opens hmarked (Nat.not_lt.mp hshort) with ⟨found, hfound, _⟩
      rw [hfound] at hread
      cases hread
  · exact read_of_not_isMarked

theorem read_eq_error_iff :
    read bytes order = .error error ↔
      (IsMarked order bytes ∧ bytes.length < length) ∧
        error = .invalidHeader s!"truncated: {bytes.length} of {length} bytes" := by
  constructor
  · intro hread
    by_cases hmarked : IsMarked order bytes
    · by_cases hshort : bytes.length < length
      · rw [read_of_isMarked_of_lt hmarked hshort, Except.error.injEq] at hread
        exact ⟨⟨hmarked, hshort⟩, hread.symm⟩
      · rcases exists_opens hmarked (Nat.not_lt.mp hshort) with ⟨found, hfound, _⟩
        rw [hfound] at hread
        cases hread
    · rw [read_of_not_isMarked hmarked] at hread
      cases hread
  · intro h
    rcases h with ⟨⟨hmarked, hshort⟩, herror⟩
    rw [herror, read_of_isMarked_of_lt hmarked hshort]

end Reading

/-!
## Both directions
-/

section Codec

variable {bytes : Bytes} {order other : ByteOrder}

def magicBytes : ByteOrder → Bytes
  | .little => [0xFA, 0xFA, 0xFE, 0xCA]
  | .big => [0xCA, 0xFE, 0xFA, 0xFA]

theorem encode_magicNumber (order : ByteOrder) :
    order.encode 4 magicNumber.toNat = magicBytes order := by
  cases order <;> rfl

theorem isMarked_iff : IsMarked order bytes ↔ bytes.take 4 = magicBytes order := by
  rw [IsMarked, List.prefix_iff_eq_take, ByteOrder.length_encode, encode_magicNumber, eq_comm]

theorem IsMarked.eq_order (hmarked : IsMarked order bytes) (hother : IsMarked other bytes) :
    other = order := by
  have hsame : magicBytes other = magicBytes order :=
    (isMarked_iff.mp hother).symm.trans (isMarked_iff.mp hmarked)
  cases order <;> cases other
  · rfl
  · exact absurd hsame (by decide)
  · exact absurd hsame (by decide)
  · rfl

theorem read_write (header : Header) (order : ByteOrder) (rest : Bytes)
    (hmagic : header.magic = magicNumber) :
    read (header.write order ++ rest) order = .ok (some header) :=
  read_eq_some_iff.mpr ⟨hmagic, List.prefix_append _ _⟩

theorem Opens.write_eq {header : Header} (hopens : header.Opens order bytes) :
    header.write order = bytes.take length := by
  have hfront := List.prefix_iff_eq_take.mp hopens.written
  rw [length_write] at hfront
  exact hfront

/--
A header is read back from what is written for it, whatever follows, and in the other
byte order there is none.  What is read is written as the bytes it was read from.  No
header is found exactly where the four bytes of the magic number are missing, and a
broken one exactly where they stand and the data ends before the header does.
-/
theorem read_inverts_write (order : ByteOrder) :
    (∀ (header : Header) (rest : Bytes), header.magic = magicNumber →
      read (header.write order ++ rest) order = .ok (some header) ∧
        ∀ other, other ≠ order → read (header.write order ++ rest) other = .ok none) ∧
    (∀ (bytes : Bytes) (header : Header), read bytes order = .ok (some header) →
      header.magic = magicNumber ∧ header.write order = bytes.take 29) ∧
    (∀ bytes : Bytes, read bytes order = .ok none ↔
      bytes.length < 4 ∨ bytes.take 4 ≠ magicBytes order) ∧
    ∀ (bytes : Bytes) (error : Error), read bytes order = .error error ↔
      (bytes.take 4 = magicBytes order ∧ bytes.length < 29) ∧
        error = .invalidHeader s!"truncated: {bytes.length} of {length} bytes" := by
  refine ⟨?_, ?_, ?_, ?_⟩
  · intro header rest hmagic
    have hread := read_write header order rest hmagic
    refine ⟨hread, ?_⟩
    intro other hother
    rw [read_eq_none_iff]
    intro hmarked
    exact hother ((read_eq_some_iff.mp hread).isMarked.eq_order hmarked)
  · intro bytes header hread
    have hopens := read_eq_some_iff.mp hread
    exact ⟨hopens.magic_eq, hopens.write_eq⟩
  · intro bytes
    rw [read_eq_none_iff, isMarked_iff]
    constructor
    · exact Or.inr
    · intro h hfront
      rcases h with hshort | hdiffers
      · have hlength := (isMarked_iff.mpr hfront).length_le
        rw [ByteOrder.length_encode] at hlength
        exact absurd hshort (Nat.not_lt.mpr hlength)
      · exact hdiffers hfront
  · intro bytes error
    rw [read_eq_error_iff, isMarked_iff]
    rfl

def outerHeader : Header where
  magic := magicNumber
  size := 1234
  contentSize := 99999
  nameOffset := 42
  configOffset := 7
  terminal := 0

/-- Such a header is written and read in either order, and written again as it was read. -/
theorem read_inverts_write_outerHeader :
    (outerHeader.magic = magicNumber ∧
      read (outerHeader.write .little ++ [0x78]) .little = .ok (some outerHeader) ∧
      read (outerHeader.write .little ++ [0x78]) .big = .ok none) ∧
    read (outerHeader.write .big ++ [0x78]) .big = .ok (some outerHeader) ∧
      outerHeader.write .big = (outerHeader.write .big ++ [0x78]).take 29 := by
  rcases (read_inverts_write .little).left outerHeader [0x78] rfl with ⟨hlittle, hother⟩
  rcases read_inverts_write .big with ⟨hforth, hback, _⟩
  have hbig := (hforth outerHeader [0x78] rfl).left
  exact ⟨⟨rfl, hlittle, hother .big (by decide)⟩, hbig, (hback _ outerHeader hbig).right⟩

end Codec

end Header
end Resource
end BoundedZlib
