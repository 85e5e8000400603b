import BoundedZlib.CodeTree
import BoundedZlib.Deflate.Token

/-!
# The two codes of a compressed block

A compressed block is read with two Huffman codes: one for literals, lengths
and the end of the block, one for distances.  They are fixed by the format, or
described at the start of the block.
-/

namespace BoundedZlib

/-- The widths of a code and of the number that follows it to complete its meaning. -/
structure Part where
  code : Nat
  more : Nat
deriving Repr, DecidableEq, Inhabited

namespace Part

def width (part : Part) : Nat :=
  part.code + part.more

def totalWidth : List Part → Nat
  | [] => 0
  | part :: rest => part.width + totalWidth rest

end Part

structure Codes where
  /-- Literals 0 to 255, the end of the block 256, lengths from 257 on. -/
  literals : CodeTree
  distances : CodeTree
deriving Repr, DecidableEq, Inhabited

namespace Codes

def ofLengths? (literals distances : List Nat) : Option Codes :=
  (CodeTree.usable? literals).bind fun literals =>
    (CodeTree.usable? distances).map fun distances => ⟨literals, distances⟩

def endOfBlock : Nat := 256

/-!
## Fixed codes
-/

def fixedLiterals : List Nat :=
  List.replicate 144 8 ++ List.replicate 112 9 ++ List.replicate 24 7 ++ List.replicate 8 8

def fixedDistances : List Nat :=
  List.replicate 32 5

def fixed : Codes :=
  (ofLengths? fixedLiterals fixedDistances).getD ⟨.unassigned, .unassigned⟩

def fixedLiteral (symbol : Nat) : List Bool :=
  let (width, code) :=
    if symbol < 144 then (8, symbol + 48)
    else if symbol < 256 then (9, symbol + 256)
    else if symbol < 280 then (7, symbol - 256)
    else (8, symbol - 88)
  (Bits.ofNat width code).reverse

def fixedDistance (symbol : Nat) : List Bool :=
  (Bits.ofNat 5 symbol).reverse

/-!
## Codes described in a block

The code lengths of both codes are one list, itself written in a Huffman code
whose symbols are the lengths 0 to 15 and three kinds of runs.
-/

def describingOrder : List Nat :=
  [16, 17, 18, 0, 8, 7, 9, 6, 10, 5, 11, 4, 12, 3, 13, 2, 14, 1, 15]

def describingLengths (given : List Nat) : List Nat :=
  (List.range describingOrder.length).map fun symbol =>
    given.getD (describingOrder.idxOf symbol) 0

/-- What a symbol of the describing code adds to the previous lengths: a count and a length. -/
def runOf (previous? : Option Nat) (symbol : Nat) : BitReader (Nat × Nat) :=
  if symbol < 16 then
    return (1, symbol)
  else if symbol = 16 then do
    let previous ← BitReader.ofOption previous?
    let more ← BitReader.nat 2
    return (3 + more, previous)
  else if symbol = 17 then
    return (3 + (← BitReader.nat 3), 0)
  else
    return (11 + (← BitReader.nat 7), 0)

/--
Read one length or one run of lengths, as a count and a length.  The previous
length can be repeated only if there is one.
-/
def runReader (describing : CodeTree) (previous? : Option Nat) :
    BitReader ((Nat × Nat) × Part) := do
  let (symbol, code) ← describing.reader.measured
  let (run, more) ← (runOf previous? symbol).measured
  return (run, ⟨code, more⟩)

/--
Read runs until there are `total` lengths, kept latest first, as are the parts
read for them.  A run may not go past the total.  Every run adds a length, so
`total` rounds are enough.
-/
def lengthsReader (describing : CodeTree) (total : Nat) :
    (rounds : Nat) → List Nat → List Part → BitReader (List Nat × List Part)
  | 0, latest, parts =>
      if latest.length = total then return (latest.reverse, parts.reverse) else .reject
  | rounds + 1, latest, parts =>
      if latest.length = total then
        return (latest.reverse, parts.reverse)
      else do
        let ((count, length), part) ← runReader describing latest.head?
        if latest.length + count ≤ total then
          lengthsReader describing total rounds (List.replicate count length ++ latest)
            (part :: parts)
        else
          .reject

def describedReader : BitReader (Codes × List Part) := do
  let literals := 257 + (← BitReader.nat 5)
  let distances := 1 + (← BitReader.nat 5)
  let count := 4 + (← BitReader.nat 4)
  if literals ≤ 286 ∧ distances ≤ 30 then
    let given ← BitReader.replicate count (BitReader.nat 3)
    let describing ← BitReader.ofOption (CodeTree.complete? (describingLengths given))
    let (lengths, parts) ←
      lengthsReader describing (literals + distances) (literals + distances) [] []
    let codes ← BitReader.ofOption (ofLengths? (lengths.take literals) (lengths.drop literals))
    return (codes, parts)
  else
    .reject

/-!
## Tokens
-/

/-- Read one token, or the end of the block, and tell its parts. -/
def tokenReader (codes : Codes) : BitReader (Option Token × List Part) := do
  let (symbol, code) ← codes.literals.reader.measured
  if symbol < endOfBlock then
    return (some (.literal (UInt8.ofNat symbol)), [⟨code, 0⟩])
  else if symbol = endOfBlock then
    return (none, [⟨code, 0⟩])
  else
    let (length, more) ←
      (ValueRange.reader ValueRange.lengths (symbol - (endOfBlock + 1))).measured
    let (index, distanceCode) ← codes.distances.reader.measured
    let (distance, distanceMore) ← (ValueRange.reader ValueRange.distances index).measured
    return (some (.copy length distance), [⟨code, more⟩, ⟨distanceCode, distanceMore⟩])

def fixedToken : Token → List Bool
  | .literal byte => fixedLiteral byte.toNat
  | .copy length distance =>
      let (lengthIndex, lengthMore) := ValueRange.encode ValueRange.lengths length
      let (distanceIndex, distanceMore) := ValueRange.encode ValueRange.distances distance
      fixedLiteral (endOfBlock + 1 + lengthIndex) ++ lengthMore ++
        (fixedDistance distanceIndex ++ distanceMore)

end Codes

end BoundedZlib
