import BoundedZlib.Bits

/-!
# Byte orders

Numbers of several bytes are stored with the least or with the most significant
byte first.  Main statement: encoding gives back what was decoded.
-/

namespace BoundedZlib

inductive ByteOrder where
  | little
  | big
deriving Repr, DecidableEq, Inhabited

namespace ByteOrder

def littleEncode : (width : Nat) → Nat → Bytes
  | 0, _ => []
  | width + 1, n => UInt8.ofNat n :: littleEncode width (n / 256)

def littleDecode : Bytes → Nat
  | [] => 0
  | byte :: rest => byte.toNat + 256 * littleDecode rest

def encode : ByteOrder → (width : Nat) → Nat → Bytes
  | little, width, n => littleEncode width n
  | big, width, n => (littleEncode width n).reverse

def decode : ByteOrder → Bytes → Nat
  | little, bytes => littleDecode bytes
  | big, bytes => littleDecode bytes.reverse

theorem length_littleEncode (width n : Nat) : (littleEncode width n).length = width := by
  induction width generalizing n with
  | zero => rfl
  | succ width ih => simp [littleEncode, ih]

theorem littleEncode_littleDecode (bytes : Bytes) :
    littleEncode bytes.length (littleDecode bytes) = bytes := by
  induction bytes with
  | nil => rfl
  | cons byte rest ih =>
      have small := byte.toNat_lt
      have high : (byte.toNat + 256 * littleDecode rest) / 256 = littleDecode rest := by omega
      have low : UInt8.ofNat (byte.toNat + 256 * littleDecode rest) = byte := by
        apply UInt8.toNat_inj.mp
        rw [UInt8.toNat_ofNat']
        omega
      rw [littleDecode, List.length_cons, littleEncode, high, low, ih]

@[simp] theorem length_encode (order : ByteOrder) (width n : Nat) :
    (order.encode width n).length = width := by
  cases order <;> simp [encode, length_littleEncode]

theorem encode_decode (order : ByteOrder) (bytes : Bytes) :
    order.encode bytes.length (order.decode bytes) = bytes := by
  cases order with
  | little => exact littleEncode_littleDecode bytes
  | big =>
      rw [encode, decode, ← List.length_reverse, littleEncode_littleDecode, List.reverse_reverse]

end ByteOrder

end BoundedZlib
