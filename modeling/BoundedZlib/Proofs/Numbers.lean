import BoundedZlib.ByteOrder
import Mathlib.Algebra.Ring.Nat

/-!
# Numbers in bits and bytes

The laws of bits and bytes: spelling a number and reading it back undo each
other, as far as the width holds it, and so do splitting bytes into bits and
packing bits into bytes.
-/

namespace BoundedZlib
namespace Bits

/-!
## Numbers and their bits
-/

theorem toNat_ofNat (width n : Nat) : toNat (ofNat width n) = n % 2 ^ width := by
  induction width generalizing n with
  | zero => simp [ofNat, toNat, Nat.mod_one]
  | succ width ih =>
      have split : n % 2 ^ (width + 1) = n % 2 + 2 * (n / 2 % 2 ^ width) := by
        rw [Nat.pow_succ, Nat.mul_comm, Nat.mod_mul]
      have bit : (n % 2 == 1).toNat = n % 2 := by
        rcases Nat.mod_two_eq_zero_or_one n with h | h <;> simp [h]
      simp only [ofNat, toNat, ih, bit, split]

theorem toNat_lt (bits : List Bool) : toNat bits < 2 ^ bits.length := by
  induction bits with
  | nil => simp [toNat]
  | cons bit rest ih =>
      have : bit.toNat ≤ 1 := by cases bit <;> simp
      simp only [toNat, List.length_cons, Nat.pow_succ]
      omega

theorem ofNat_toNat (bits : List Bool) : ofNat bits.length (toNat bits) = bits := by
  induction bits with
  | nil => rfl
  | cons bit rest ih =>
      have small : bit.toNat < 2 := by cases bit <;> decide
      have low : (bit.toNat + 2 * toNat rest) % 2 = bit.toNat := by omega
      have high : (bit.toNat + 2 * toNat rest) / 2 = toNat rest := by omega
      simp only [toNat, List.length_cons, ofNat, low, high, ih]
      cases bit <;> rfl

theorem toNat_cons (bit : Bool) (rest : List Bool) :
    toNat (bit :: rest) = bit.toNat + 2 * toNat rest := rfl

theorem toNat_append (front back : List Bool) :
    toNat (front ++ back) = toNat front + 2 ^ front.length * toNat back := by
  induction front with
  | nil => simp [toNat]
  | cons bit rest ih =>
      rw [List.cons_append, toNat_cons, toNat_cons, ih, List.length_cons, Nat.pow_succ]
      grind

theorem spells_iff {bits : List Bool} {width n : Nat} :
    bits.length = width ∧ toNat bits = n ↔ n < 2 ^ width ∧ bits = ofNat width n := by
  constructor
  · intro h
    rcases h with ⟨hlength, hvalue⟩
    constructor
    · rw [← hvalue, ← hlength]
      exact toNat_lt bits
    · rw [← hvalue, ← hlength]
      exact (ofNat_toNat bits).symm
  · intro h
    rcases h with ⟨hsmall, hbits⟩
    constructor
    · rw [hbits, length_ofNat]
    · rw [hbits, toNat_ofNat, Nat.mod_eq_of_lt hsmall]

/-!
## Bytes and their bits
-/

theorem toByte_ofByte (byte : UInt8) : toByte (ofByte byte) = byte := by
  rw [toByte, ofByte, toNat_ofNat, Nat.mod_eq_of_lt byte.toNat_lt, UInt8.ofNat_toNat]

theorem ofByte_toByte (bits : List Bool)
    (length_eq : bits.length = 8) :
    ofByte (toByte bits) = bits := by
  have small := toNat_lt bits
  rw [length_eq] at small
  have value : (toByte bits).toNat = toNat bits := by
    rw [toByte, UInt8.toNat_ofNat', Nat.mod_eq_of_lt small]
  have back := ofNat_toNat bits
  rw [length_eq] at back
  rw [ofByte, value, back]

theorem ofBytes_injective {bytes other : Bytes} (hsame : ofBytes bytes = ofBytes other) :
    bytes = other := by
  induction bytes generalizing other with
  | nil =>
      cases other with
      | nil => rfl
      | cons byte rest =>
          have hlength := congrArg List.length hsame
          simp [ofByte, ofNat] at hlength
  | cons byte rest ih =>
      cases other with
      | nil =>
          have hlength := congrArg List.length hsame
          simp [ofByte, ofNat] at hlength
      | cons byte' rest' =>
          rcases List.append_inj hsame (by simp) with ⟨hbyte, hrest⟩
          rw [← toByte_ofByte byte, hbyte, toByte_ofByte, ih hrest]

theorem ofBytes_packInto (bytes : Array UInt8) (bits : List Bool) :
    ofBytes (packInto bytes bits).1.toList ++ (packInto bytes bits).2 =
      ofBytes bytes.toList ++ bits := by
  fun_induction packInto bytes bits with
  | case1 bytes b₀ b₁ b₂ b₃ b₄ b₅ b₆ b₇ rest ih =>
      rw [ih, Array.toList_push, ofBytes_append, ofBytes_cons, ofBytes_nil,
        ofByte_toByte _ rfl]
      simp
  | case2 => rfl

theorem ofBytes_pack (bits : List Bool) :
    ofBytes (pack bits).1 ++ (pack bits).2 = bits := by
  simpa [pack] using ofBytes_packInto #[] bits

theorem length_packInto_lt (bytes : Array UInt8) (bits : List Bool) :
    (packInto bytes bits).2.length < 8 := by
  fun_induction packInto bytes bits with
  | case1 bytes b₀ b₁ b₂ b₃ b₄ b₅ b₆ b₇ rest ih => exact ih
  | case2 bytes rest hshort =>
      -- Had there been eight bits, they would have been packed.
      rcases rest with
        _ | ⟨b₀, _ | ⟨b₁, _ | ⟨b₂, _ | ⟨b₃, _ | ⟨b₄, _ | ⟨b₅, _ | ⟨b₆, _ | ⟨b₇, rest⟩⟩⟩⟩⟩⟩⟩⟩
      all_goals first | exact absurd rfl (hshort _ _ _ _ _ _ _ _ _) | simp

theorem split_ofBytes {bytes : Bytes} {front back : List Bool}
    (hsplit : ofBytes bytes = front ++ back)
    (haligned : front.length % 8 = 0) :
    ∃ before after, bytes = before ++ after ∧ ofBytes before = front ∧ ofBytes after = back := by
  have hlength := congrArg List.length hsplit
  rw [length_ofBytes, List.length_append] at hlength
  have hboth : ofBytes (bytes.take (front.length / 8)) ++
      ofBytes (bytes.drop (front.length / 8)) = front ++ back := by
    rw [← ofBytes_append, List.take_append_drop, hsplit]
  have hfront : (ofBytes (bytes.take (front.length / 8))).length = front.length := by
    rw [length_ofBytes, List.length_take]
    omega
  rcases List.append_inj hboth hfront with ⟨hbefore, hafter⟩
  exact ⟨_, _, (List.take_append_drop _ bytes).symm, hbefore, hafter⟩

theorem prefix_of_ofBytes {front bytes : Bytes}
    (hfront : ofBytes front <+: ofBytes bytes) :
    front <+: bytes := by
  rcases hfront with ⟨rest, hrest⟩
  have haligned : (ofBytes front).length % 8 = 0 := by
    rw [length_ofBytes]
    exact Nat.mul_mod_right 8 _
  rcases split_ofBytes hrest.symm haligned with ⟨before, after, hbytes, hbefore, _⟩
  rw [hbytes, ← ofBytes_injective hbefore]
  exact List.prefix_append _ _

end Bits

/-!
## Numbers and their bytes
-/

namespace ByteOrder

theorem littleDecode_littleEncode (width n : Nat) :
    littleDecode (littleEncode width n) = n % 256 ^ width := by
  induction width generalizing n with
  | zero => simp [littleEncode, littleDecode, Nat.mod_one]
  | succ width ih =>
      have byte : (UInt8.ofNat n).toNat = n % 256 := UInt8.toNat_ofNat'
      rw [littleEncode, littleDecode, ih, byte, Nat.pow_succ, Nat.mul_comm (256 ^ width) 256,
        Nat.mod_mul]

theorem decode_encode (order : ByteOrder) (width n : Nat) :
    order.decode (order.encode width n) = n % 256 ^ width := by
  cases order <;> simp [encode, decode, littleDecode_littleEncode]

end ByteOrder

end BoundedZlib
