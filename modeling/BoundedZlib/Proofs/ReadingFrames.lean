import BoundedZlib.Inflater
import BoundedZlib.Proofs.ReadingBlocks
import Mathlib.Data.List.Induction

/-!
# Reading the frame of a stream

What the readers of the header and of the checksum read, in terms of the
format, and that the checksum is the one that the format states.
-/

namespace BoundedZlib

/-!
## The checksum
-/

namespace Adler

theorem ofBytes_append_singleton (bytes : Bytes) (byte : UInt8) :
    ofBytes (bytes ++ [byte]) = (ofBytes bytes).add byte :=
  addBytes_append {} bytes [byte]

theorem low_ofBytes (bytes : Bytes) :
    (ofBytes bytes).low = (1 + Format.byteSum bytes) % modulus := by
  induction bytes using List.reverseRecOn with
  | nil => rfl
  | append_singleton bytes byte ih =>
      have hsum : Format.byteSum (bytes ++ [byte]) = Format.byteSum bytes + byte.toNat := by
        simp [Format.byteSum]
      rw [ofBytes_append_singleton, add, ih, hsum, Nat.mod_add_mod, Nat.add_assoc]

theorem high_ofBytes (bytes : Bytes) :
    (ofBytes bytes).high = ((List.range bytes.length).map fun i =>
      1 + Format.byteSum (bytes.take (i + 1))).sum % modulus := by
  induction bytes using List.reverseRecOn with
  | nil => rfl
  | append_singleton bytes byte ih =>
      have hfront : ((List.range bytes.length).map fun i =>
            1 + Format.byteSum ((bytes ++ [byte]).take (i + 1))) =
          (List.range bytes.length).map fun i => 1 + Format.byteSum (bytes.take (i + 1)) := by
        apply List.map_congr_left
        intro i hmem
        rw [List.take_append_of_le_length (Nat.succ_le_of_lt (List.mem_range.mp hmem))]
      have hlast : (bytes ++ [byte]).take (bytes.length + 1) = bytes ++ [byte] := by
        apply List.take_of_length_le
        rw [List.length_append, List.length_singleton]
      have hlow := low_ofBytes (bytes ++ [byte])
      rw [ofBytes_append_singleton] at hlow ⊢
      rw [List.length_append, List.length_singleton, List.range_succ, List.map_append, hfront,
        List.sum_append, List.map_singleton, List.sum_singleton, hlast]
      rw [show ((ofBytes bytes).add byte).high =
        ((ofBytes bytes).high + ((ofBytes bytes).add byte).low) % modulus from rfl]
      rw [hlow, ih, Nat.mod_add_mod, Nat.add_mod_mod]

/-- The checksum in progress is the one that the format states for the bytes so far. -/
theorem value_ofBytes (bytes : Bytes) : (ofBytes bytes).value = Format.checksum bytes := by
  rw [value, low_ofBytes, high_ofBytes, Nat.mul_comm]
  rfl

end Adler

namespace Format

theorem checksum_lt (content : Bytes) : checksum content < 256 ^ 4 := by
  have hlow := Nat.mod_lt (1 + byteSum content) (show 0 < 65521 by decide)
  have hhigh := Nat.mod_lt ((List.range content.length).map fun i =>
    1 + byteSum (content.take (i + 1))).sum (show 0 < 65521 by decide)
  unfold checksum
  omega

theorem decode_eq_checksum {bytes content : Bytes} (hlength : bytes.length = 4) :
    ByteOrder.big.decode bytes = checksum content ↔
      bytes = ByteOrder.big.encode 4 (checksum content) := by
  constructor
  · intro hvalue
    rw [← hvalue, ← hlength, ByteOrder.encode_decode]
  · intro hbytes
    rw [hbytes, ByteOrder.decode_encode, Nat.mod_eq_of_lt (checksum_lt content)]

/-!
## Readers
-/

theorem ofBytes_map_ofNat {numbers : List Nat} (hsmall : ∀ number ∈ numbers, number < 2 ^ 8) :
    Bits.ofBytes (numbers.map UInt8.ofNat) = numbers.flatMap (Bits.ofNat 8) := by
  induction numbers with
  | nil => rfl
  | cons number rest ih =>
      have hnumber : (UInt8.ofNat number).toNat = number := by
        rw [UInt8.toNat_ofNat', Nat.mod_eq_of_lt (hsmall number List.mem_cons_self)]
      have hrest : ∀ number ∈ rest, number < 2 ^ 8 := by
        intro number hmem
        exact hsmall number (List.mem_cons_of_mem _ hmem)
      rw [List.map_cons, Bits.ofBytes_cons, ih hrest, List.flatMap_cons, Bits.ofByte, hnumber]

theorem isHeader_iff {method flags : UInt8} :
    Element.isHeader method.toNat flags.toNat = true ↔ IsHeader method flags := by
  simp only [Element.isHeader, IsHeader, Bool.and_eq_true, beq_iff_eq, decide_eq_true_eq]
  omega

theorem reads_headerReader {bits : List Bool} {element : Element} :
    Element.headerReader.Reads bits element ↔
      element = .header ∧ ∃ method flags : UInt8,
        IsHeader method flags ∧ bits = Bits.ofBytes [method, flags] := by
  simp only [Element.headerReader, BitReader.bind_eq_bind, BitReader.pure_eq_done,
    BitReader.reads_bind, BitReader.reads_ite, BitReader.reads_nat, BitReader.reads_done,
    BitReader.not_reads_reject, and_false, or_false]
  constructor
  · intro h
    rcases h with ⟨_, _, method, rfl, ⟨hmethod, rfl⟩, _, _, flags, rfl, ⟨hflags, rfl⟩, hheader, rfl,
      helement⟩
    have hmethod' : (UInt8.ofNat method).toNat = method := by
      rw [UInt8.toNat_ofNat', Nat.mod_eq_of_lt hmethod]
    have hflags' : (UInt8.ofNat flags).toNat = flags := by
      rw [UInt8.toNat_ofNat', Nat.mod_eq_of_lt hflags]
    refine ⟨helement.symm, UInt8.ofNat method, UInt8.ofNat flags, ?_, ?_⟩
    · rw [← isHeader_iff, hmethod', hflags']
      exact hheader
    · simp [Bits.ofByte, hmethod', hflags']
  · intro h
    rcases h with ⟨helement, method, flags, hheader, hbits⟩
    exact ⟨_, Bits.ofByte flags, method.toNat, hbits, ⟨method.toNat_lt, rfl⟩, _, [], flags.toNat,
      (List.append_nil _).symm, ⟨flags.toNat_lt, rfl⟩, isHeader_iff.mpr hheader, rfl,
      helement.symm⟩

theorem reads_checksumReader {position : Nat} {bits : List Bool} {element : Element} :
    (Element.checksumReader position).Reads bits element ↔
      ∃ filling bytes, bits = filling ++ Bits.ofBytes bytes ∧
        filling.length = padding position ∧ bytes.length = 4 ∧
        element = .checksum (ByteOrder.big.decode bytes) := by
  have hbyte : ∀ bits value, (BitReader.nat 8).Reads bits value ↔
      value < 2 ^ 8 ∧ bits = Bits.ofNat 8 value := fun _ _ => BitReader.reads_nat
  simp only [Element.checksumReader, BitReader.bind_eq_bind, BitReader.pure_eq_done,
    BitReader.reads_bind, BitReader.reads_skip, BitReader.reads_replicate hbyte,
    BitReader.reads_done]
  constructor
  · intro h
    rcases h with ⟨filling, _, _, rfl, hfilling, _, _, numbers, rfl, ⟨hcount, hnumbers, rfl⟩, rfl,
      helement⟩
    exact ⟨filling, numbers.map UInt8.ofNat, by rw [ofBytes_map_ofNat hnumbers, List.append_nil],
      hfilling, by rw [List.length_map, hcount], helement.symm⟩
  · intro h
    rcases h with ⟨filling, bytes, hbits, hfilling, hcount, helement⟩
    have hsmall : ∀ number ∈ bytes.map UInt8.toNat, number < 2 ^ 8 := by
      intro number hmem
      rcases List.mem_map.mp hmem with ⟨byte, _, hbyte⟩
      rw [← hbyte]
      exact byte.toNat_lt
    have hback : (bytes.map UInt8.toNat).map UInt8.ofNat = bytes := by
      rw [List.map_map]
      exact List.map_id'' (fun byte => UInt8.ofNat_toNat) bytes
    refine ⟨filling, _, (), hbits, hfilling, _, [], bytes.map UInt8.toNat,
      (List.append_nil _).symm, ⟨by rw [List.length_map, hcount], hsmall, ?_⟩, rfl, ?_⟩
    · rw [← ofBytes_map_ofNat hsmall, hback]
    · rw [hback]
      exact helement.symm

end Format
end BoundedZlib
