import BoundedZlib.Proofs.BitReading
import BoundedZlib.Proofs.Format

/-!
# Stored streams

Content of at most 65535 bytes has a stream that holds it as it is, in one stored block.
-/

namespace BoundedZlib

/-!
## Numbers of several bytes
-/

theorem Bits.toNat_ofBytes (bytes : Bytes) :
    toNat (ofBytes bytes) = ByteOrder.little.decode bytes := by
  induction bytes with
  | nil => rfl
  | cons byte rest ih =>
      have hbyte : toNat (ofByte byte) = byte.toNat := by
        rw [ofByte, toNat_ofNat, Nat.mod_eq_of_lt byte.toNat_lt]
      rw [ofBytes_cons, toNat_append, ih, hbyte, length_ofByte]
      rfl

theorem BitReader.reads_two_bytes {bytes : Bytes} (hlength : bytes.length = 2) :
    (nat 16).Reads (Bits.ofBytes bytes) (ByteOrder.little.decode bytes) := by
  rw [reads_nat_iff, Bits.length_ofBytes, hlength]
  exact ⟨rfl, Bits.toNat_ofBytes bytes⟩

theorem Bits.ofBytes_encode {number : Nat} (hsmall : number < 2 ^ 16) :
    ofBytes (ByteOrder.little.encode 2 number) = ofNat 16 number := by
  have hreads := BitReader.reads_two_bytes (ByteOrder.length_encode .little 2 number)
  rw [ByteOrder.decode_encode, show (256 : Nat) ^ 2 = 2 ^ 16 from rfl, Nat.mod_eq_of_lt hsmall]
    at hreads
  exact (BitReader.reads_nat.mp hreads).right

namespace Format

/-!
## Streams of one stored block
-/

/-- A stream of one stored block, with any lengths and any checksum. -/
def storedParts (first second data trailer : Bytes) : Bytes :=
  [0x78, 0x01, 0x01] ++ (first ++ (second ++ (data ++ trailer)))

def storedStream (data : Bytes) : Bytes :=
  storedParts (ByteOrder.little.encode 2 data.length)
    (ByteOrder.little.encode 2 (65535 - data.length)) data
    (ByteOrder.big.encode 4 (checksum data))

theorem isHeader_stored : IsHeader 0x78 0x01 :=
  ⟨by decide, by decide, by decide, by decide⟩

theorem openStream_stored : OpenStream (Bits.ofBytes [0x78, 0x01]) [] :=
  OpenStream.intro isHeader_stored OpenBlocks.nil

theorem block_stored {data : Bytes} (hlength : data.length ≤ 65535) :
    Block 16 true [] (Bits.ofBytes ([0x01] ++ ByteOrder.little.encode 2 data.length ++
      ByteOrder.little.encode 2 (65535 - data.length) ++ data)) data := by
  have hsmall : data.length < 2 ^ 16 := Nat.lt_succ_of_le hlength
  have hrest : 65535 - data.length < 2 ^ 16 := by omega
  have hopening : Bits.ofBytes [0x01] = [true, false, false] ++ List.replicate 5 false := rfl
  have hpadding : (List.replicate 5 false).length < 8 := by decide
  have hblock := @Block.stored 16 true [] _ data hpadding (by decide) hsmall
  rw [Bits.ofBytes_append, Bits.ofBytes_append, Bits.ofBytes_append, hopening,
    Bits.ofBytes_encode hsmall, Bits.ofBytes_encode hrest]
  exact hblock

theorem length_storedStream (data : Bytes) : (storedStream data).length = data.length + 11 := by
  simp only [storedStream, storedParts, List.length_append, ByteOrder.length_encode,
    List.length_cons, List.length_nil]
  omega

theorem stream_storedStream {data : Bytes} (hlength : data.length ≤ 65535) :
    Stream (storedStream data) data := by
  have hlast := block_stored hlength
  have hopening : (Bits.ofBytes [0x78, 0x01]).length = 16 := rfl
  have hparts : storedStream data = [0x78, 0x01] ++ ([0x01] ++
      ByteOrder.little.encode 2 data.length ++ ByteOrder.little.encode 2 (65535 - data.length) ++
        data) ++ ByteOrder.big.encode 4 (checksum data) := by
    simp [storedStream, storedParts]
  rw [← hopening] at hlast
  apply @Stream.intro _ _ _ _ _ [] openStream_stored hlast (by decide)
  · rw [Bits.length_ofBytes, Bits.length_ofBytes, List.length_nil]
    omega
  · rw [hparts, List.append_nil, Bits.ofBytes_append, Bits.ofBytes_append [0x78, 0x01]]

theorem stream_stored_byte :
    Stream [0x78, 0x01, 0x01, 0x01, 0x00, 0xfe, 0xff, 0x61, 0x00, 0x62, 0x00, 0x62] [0x61] := by
  have hstored : storedStream [0x61] =
      [0x78, 0x01, 0x01, 0x01, 0x00, 0xfe, 0xff, 0x61, 0x00, 0x62, 0x00, 0x62] := by decide
  rw [← hstored]
  exact stream_storedStream (by decide)

theorem stream_stored_pair :
    Stream [0x78, 0x01, 0x01, 0x02, 0x00, 0xfd, 0xff, 0x61, 0x62, 0x01, 0x26, 0x00, 0xc4]
      [0x61, 0x62] := by
  have hstored : storedStream [0x61, 0x62] =
      [0x78, 0x01, 0x01, 0x02, 0x00, 0xfd, 0xff, 0x61, 0x62, 0x01, 0x26, 0x00, 0xc4] := by decide
  rw [← hstored]
  exact stream_storedStream (by decide)

end Format
end BoundedZlib
