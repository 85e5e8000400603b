/-!
# Bytes and their bits

A zlib stream is written in bytes and read in bits.  This module fixes the
reading order: the bits of a byte, and of every number that is not a Huffman
code, come least significant first.
-/

namespace BoundedZlib

abbrev Bytes := List UInt8

namespace Bits

/-!
## Numbers
-/

def ofNat : (width : Nat) → Nat → List Bool
  | 0, _ => []
  | width + 1, n => (n % 2 == 1) :: ofNat width (n / 2)

def toNat : List Bool → Nat
  | [] => 0
  | bit :: rest => bit.toNat + 2 * toNat rest

@[simp] theorem length_ofNat (width n : Nat) : (ofNat width n).length = width := by
  induction width generalizing n with
  | zero => rfl
  | succ width ih => simp [ofNat, ih]

/-!
## Bytes
-/

def ofByte (byte : UInt8) : List Bool :=
  ofNat 8 byte.toNat

def ofBytes (bytes : Bytes) : List Bool :=
  bytes.flatMap ofByte

def toByte (bits : List Bool) : UInt8 :=
  UInt8.ofNat (toNat bits)

/-- Pack bits into the bytes collected so far; fewer than eight bits stay over. -/
def packInto (bytes : Array UInt8) : List Bool → Array UInt8 × List Bool
  | b₀ :: b₁ :: b₂ :: b₃ :: b₄ :: b₅ :: b₆ :: b₇ :: rest =>
      packInto (bytes.push (toByte [b₀, b₁, b₂, b₃, b₄, b₅, b₆, b₇])) rest
  | rest => (bytes, rest)

def pack (bits : List Bool) : Bytes × List Bool :=
  let (bytes, rest) := packInto #[] bits
  (bytes.toList, rest)

@[simp] theorem length_ofByte (byte : UInt8) : (ofByte byte).length = 8 :=
  length_ofNat 8 byte.toNat

@[simp] theorem ofBytes_nil : ofBytes [] = [] := rfl

@[simp] theorem ofBytes_cons (byte : UInt8) (bytes : Bytes) :
    ofBytes (byte :: bytes) = ofByte byte ++ ofBytes bytes := rfl

@[simp] theorem ofBytes_append (front back : Bytes) :
    ofBytes (front ++ back) = ofBytes front ++ ofBytes back := by
  simp [ofBytes]

theorem length_ofBytes (bytes : Bytes) : (ofBytes bytes).length = 8 * bytes.length := by
  induction bytes with
  | nil => rfl
  | cons byte rest ih =>
      simp only [ofBytes_cons, List.length_append, length_ofByte, List.length_cons, ih]
      omega

end Bits

end BoundedZlib
