import BoundedZlib.Deflate.Codes

/-!
# Blocks

DEFLATE content comes in blocks.  A block says whether it is the last one, and
either holds bytes as they are or spells them by tokens.  Bytes held as they
are start at a byte boundary, so both reading and writing a block depend on the
position in the stream, counted in bits.
-/

namespace BoundedZlib

def padding (position : Nat) : Nat :=
  (8 - position % 8) % 8

/-- What follows the opening of a block. -/
inductive BlockBody where
  | stored (length : Nat)
  | coded (codes : Codes)
deriving Repr, DecidableEq, Inhabited

namespace BlockBody

def maxStored : Nat := 65535

def storedReader (position : Nat) : BitReader BlockBody := do
  BitReader.skip (padding position)
  let length ← BitReader.nat 16
  let complement ← BitReader.nat 16
  if length + complement = maxStored then return .stored length else .reject

/--
Read what follows the two bits that tell the kind of a block, and tell the parts
that it ends with.
-/
def reader (position : Nat) : (kind : Nat) → BitReader (BlockBody × List Part)
  | 0 => return (← storedReader position, [])
  | 1 => return (.coded .fixed, [])
  | 2 => do
      let (codes, parts) ← Codes.describedReader
      return (.coded codes, parts)
  | _ => .reject

def openingReader (position : Nat) : BitReader ((Bool × BlockBody) × List Part) := do
  let final ← BitReader.nat 1
  let kind ← BitReader.nat 2
  let (body, parts) ← reader (position + 3) kind
  return ((final == 1, body), parts)

end BlockBody

/-!
## Blocks to be written
-/

inductive Block where
  | stored (bytes : Bytes)
  | fixed (tokens : List Token)
deriving Repr, DecidableEq, Inhabited

namespace Block

def spell (content : Content) : Block → Content
  | stored bytes => content ++ bytes
  | fixed tokens => content.spellAll tokens

def bits (final : Bool) (position : Nat) : Block → List Bool
  | stored bytes =>
      [final, false, false] ++ List.replicate (padding (position + 3)) false ++
        Bits.ofNat 16 bytes.length ++ Bits.ofNat 16 (BlockBody.maxStored - bytes.length) ++
        Bits.ofBytes bytes
  | fixed tokens =>
      [final, true, false] ++ tokens.flatMap Codes.fixedToken ++
        Codes.fixedLiteral Codes.endOfBlock

end Block

end BoundedZlib
