import BoundedZlib.Bits

/-!
# Adler-32

The checksum that closes a zlib stream: two running sums modulo the largest
prime below two to the sixteenth.
-/

namespace BoundedZlib

structure Adler where
  low : Nat := 1
  high : Nat := 0
deriving Repr, DecidableEq, Inhabited

namespace Adler

def modulus : Nat := 65521

def add (sums : Adler) (byte : UInt8) : Adler :=
  let low := (sums.low + byte.toNat) % modulus
  ⟨low, (sums.high + low) % modulus⟩

def addBytes (sums : Adler) (bytes : Bytes) : Adler :=
  bytes.foldl add sums

def ofBytes (bytes : Bytes) : Adler :=
  addBytes {} bytes

def value (sums : Adler) : Nat :=
  sums.high * 65536 + sums.low

theorem addBytes_append (sums : Adler) (front back : Bytes) :
    sums.addBytes (front ++ back) = (sums.addBytes front).addBytes back := by
  simp [addBytes]

end Adler

end BoundedZlib
