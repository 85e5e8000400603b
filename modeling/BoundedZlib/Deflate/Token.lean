import BoundedZlib.BitReader

/-!
# Literals and copies

The content of a compressed block is spelled by tokens: a literal byte, or a
copy of a stretch of what was spelled before.  Lengths and distances are coded
as a symbol, which fixes a least value, and some extra bits, which are added to
it.
-/

namespace BoundedZlib

inductive Token where
  | literal (byte : UInt8)
  /-- Repeat `length` bytes, starting `distance` bytes back. -/
  | copy (length distance : Nat)
deriving Repr, DecidableEq, Inhabited

namespace Token

def size : Token → Nat
  | literal _ => 1
  | copy length _ => length

def totalSize : List Token → Nat
  | [] => 0
  | token :: rest => token.size + totalSize rest

def maxDistance : Nat := 32768

def minLength : Nat := 3

def maxCopy : Nat := 258

end Token

/-!
## Spelling
-/

abbrev Content := Array UInt8

namespace Content

def back (content : Content) (distance : Nat) : UInt8 :=
  if distance ≤ content.size then content.getD (content.size - distance) 0 else 0

/-- Repeat a stretch byte by byte, so that it may overlap its own copy. -/
def copy (content : Content) : (length distance : Nat) → Content
  | 0, _ => content
  | length + 1, distance => copy (content.push (content.back distance)) length distance

def spell (content : Content) : Token → Content
  | .literal byte => content.push byte
  | .copy length distance => content.copy length distance

def spellAll (content : Content) (tokens : List Token) : Content :=
  tokens.foldl spell content

@[simp] theorem size_copy (content : Content) (length distance : Nat) :
    (content.copy length distance).size = content.size + length := by
  induction length generalizing content with
  | zero => rfl
  | succ length ih =>
      rw [copy, ih, Array.size_push]
      omega

@[simp] theorem size_spell (content : Content) (token : Token) :
    (content.spell token).size = content.size + token.size := by
  cases token with
  | literal byte => exact Array.size_push byte
  | copy length distance => exact size_copy content length distance

end Content

/-!
## Ranges of values
-/

/-- The values that one symbol stands for: `least` and the next `2 ^ extra - 1`. -/
structure ValueRange where
  least : Nat
  extra : Nat
deriving Repr, DecidableEq, Inhabited

namespace ValueRange

/-- The lengths of copies, from symbol 257 on; the longest has a symbol of its own. -/
def lengths : List ValueRange :=
  [⟨3, 0⟩, ⟨4, 0⟩, ⟨5, 0⟩, ⟨6, 0⟩, ⟨7, 0⟩, ⟨8, 0⟩, ⟨9, 0⟩, ⟨10, 0⟩,
   ⟨11, 1⟩, ⟨13, 1⟩, ⟨15, 1⟩, ⟨17, 1⟩, ⟨19, 2⟩, ⟨23, 2⟩, ⟨27, 2⟩, ⟨31, 2⟩,
   ⟨35, 3⟩, ⟨43, 3⟩, ⟨51, 3⟩, ⟨59, 3⟩, ⟨67, 4⟩, ⟨83, 4⟩, ⟨99, 4⟩, ⟨115, 4⟩,
   ⟨131, 5⟩, ⟨163, 5⟩, ⟨195, 5⟩, ⟨227, 5⟩, ⟨258, 0⟩]

def distances : List ValueRange :=
  [⟨1, 0⟩, ⟨2, 0⟩, ⟨3, 0⟩, ⟨4, 0⟩, ⟨5, 1⟩, ⟨7, 1⟩, ⟨9, 2⟩, ⟨13, 2⟩,
   ⟨17, 3⟩, ⟨25, 3⟩, ⟨33, 4⟩, ⟨49, 4⟩, ⟨65, 5⟩, ⟨97, 5⟩, ⟨129, 6⟩, ⟨193, 6⟩,
   ⟨257, 7⟩, ⟨385, 7⟩, ⟨513, 8⟩, ⟨769, 8⟩, ⟨1025, 9⟩, ⟨1537, 9⟩,
   ⟨2049, 10⟩, ⟨3073, 10⟩, ⟨4097, 11⟩, ⟨6145, 11⟩, ⟨8193, 12⟩, ⟨12289, 12⟩,
   ⟨16385, 13⟩, ⟨24577, 13⟩]

def reader (ranges : List ValueRange) (index : Nat) : BitReader Nat := do
  let range ← BitReader.ofOption ranges[index]?
  let more ← BitReader.nat range.extra
  return range.least + more

/--
The last range that starts no later than the value, with its index; the value
is in it as long as it is in any.
-/
def locate (value : Nat) : (index : Nat) → (best : Nat × ValueRange) → List ValueRange →
    Nat × ValueRange
  | _, best, [] => best
  | index, best, range :: rest =>
      if range.least ≤ value then locate value (index + 1) (index, range) rest else best

def encode (ranges : List ValueRange) (value : Nat) : Nat × List Bool :=
  let (index, range) := locate value 0 (0, ⟨0, 0⟩) ranges
  (index, Bits.ofNat range.extra (value - range.least))

end ValueRange

end BoundedZlib
