import BoundedZlib.ByteOrder
import Mathlib.Algebra.Ring.Nat

/-!
# The zlib format

Which byte sequences are zlib streams, and what content they have.  Nothing
here reads or writes: codes are numbers determined by their lengths, blocks are
relations between bits and the content before and after them, and a stream is a
header, blocks and a checksum.

The format is as wide as decoders take it.  The bits that fill up a byte may
have any value, a distance may reach up to 32768 bytes before the content, where
zeros lie, and a code may leave bit sequences unassigned if it is empty or has
only codes of one bit.  A code for literals without an end of the block is a
code like any other; its block just never ends.
-/

namespace BoundedZlib
namespace Format

/-!
## Huffman codes

A code is given by the code length of each symbol, zero for a symbol without a
code.  Codes come in order of their lengths, and among equal lengths in order of
their symbols.  Each code takes up the share of the code space that its
extensions have, and the next code starts where that share ends.
-/

def codeLength (lengths : List Nat) (symbol : Nat) : Nat :=
  lengths.getD symbol 0

def Precedes (lengths : List Nat) (earlier symbol : Nat) : Prop :=
  0 < codeLength lengths earlier ∧
    (codeLength lengths earlier < codeLength lengths symbol ∨
      codeLength lengths earlier = codeLength lengths symbol ∧ earlier < symbol)

instance (lengths : List Nat) (earlier symbol : Nat) :
    Decidable (Precedes lengths earlier symbol) :=
  inferInstanceAs (Decidable (_ ∧ _))

/-- How many codes of the symbol's length the earlier codes take up. -/
def codeValue (lengths : List Nat) (symbol : Nat) : Nat :=
  ((List.range lengths.length).map fun earlier =>
    if Precedes lengths earlier symbol then
      2 ^ (codeLength lengths symbol - codeLength lengths earlier)
    else 0).sum

/-- The bits are the code of the symbol, most significant bit first. -/
def IsCode (lengths : List Nat) (symbol : Nat) (bits : List Bool) : Prop :=
  0 < bits.length ∧ bits.length = codeLength lengths symbol ∧
    Bits.toNat bits.reverse = codeValue lengths symbol

/-- The share of the code space that all codes take up, counted in codes of 15 bits. -/
def codeSpace (lengths : List Nat) : Nat :=
  (lengths.map fun length => if length = 0 then 0 else 2 ^ (15 - length)).sum

def IsComplete (lengths : List Nat) : Prop :=
  codeSpace lengths = 2 ^ 15

/-- A code that a block may use. -/
def IsUsable (lengths : List Nat) : Prop :=
  IsComplete lengths ∨ codeSpace lengths ≤ 2 ^ 15 ∧ ∀ length ∈ lengths, length ≤ 1

/-!
## Literals and copies

The symbols up to 255 are literal bytes, 256 ends a block, and the symbols from
257 on stand for lengths of copies.  Lengths and distances come in groups of
equal width: four symbols of lengths and two of distances for each number of
extra bits, and before them as many that stand for one value each.
-/

def lengthExtra (index : Nat) : Nat :=
  if index = 28 then 0 else index / 4 - 1

def lengthBase (index : Nat) : Nat :=
  if index = 28 then 258
  else if index < 4 then index + 3
  else (4 + index % 4) * 2 ^ lengthExtra index + 3

def distanceExtra (index : Nat) : Nat :=
  index / 2 - 1

def distanceBase (index : Nat) : Nat :=
  if index < 2 then index + 1
  else (2 + index % 2) * 2 ^ distanceExtra index + 1

/-- Of so many symbols, the one with this index stands with these extra bits for the value. -/
def IsValue (count : Nat) (base extra : Nat → Nat) (index : Nat) (more : List Bool)
    (value : Nat) : Prop :=
  index < count ∧ more.length = extra index ∧ value = base index + Bits.toNat more

def IsLength : Nat → List Bool → Nat → Prop :=
  IsValue 29 lengthBase lengthExtra

def IsDistance : Nat → List Bool → Nat → Prop :=
  IsValue 30 distanceBase distanceExtra

/-- So many bytes are added, each of which repeats the one so far before it, or a zero. -/
def Repeats (length distance : Nat) (before after : Bytes) : Prop :=
  before <+: after ∧ after.length = before.length + length ∧
    ∀ i, before.length ≤ i → i < after.length →
      after[i]? = if distance ≤ i then after[i - distance]? else some 0

/-- The bits of a compressed block after its description, up to its end. -/
inductive Tokens (literals distances : List Nat) : Bytes → List Bool → Bytes → Prop where
  | stop {content : Bytes} {code : List Bool}
      (hcode : IsCode literals 256 code) :
      Tokens literals distances content code content
  | literal {before after : Bytes} {byte : UInt8} {code rest : List Bool}
      (hcode : IsCode literals byte.toNat code)
      (hrest : Tokens literals distances (before ++ [byte]) rest after) :
      Tokens literals distances before (code ++ rest) after
  | copy {before middle after : Bytes} {lengthIndex distanceIndex length distance : Nat}
      {lengthCode lengthMore distanceCode distanceMore rest : List Bool}
      (hlengthCode : IsCode literals (257 + lengthIndex) lengthCode)
      (hlength : IsLength lengthIndex lengthMore length)
      (hdistanceCode : IsCode distances distanceIndex distanceCode)
      (hdistance : IsDistance distanceIndex distanceMore distance)
      (hrepeats : Repeats length distance before middle)
      (hrest : Tokens literals distances middle rest after) :
      Tokens literals distances before
        (lengthCode ++ lengthMore ++ distanceCode ++ distanceMore ++ rest) after

/-!
## Codes and their description
-/

def fixedLiterals : List Nat :=
  (List.range 288).map fun symbol =>
    if symbol < 144 then 8 else if symbol < 256 then 9 else if symbol < 280 then 7 else 8

def fixedDistances : List Nat :=
  List.replicate 32 5

/-- The order in which the code lengths of the describing code are given. -/
def describingOrder : List Nat :=
  [16, 17, 18, 0, 8, 7, 9, 6, 10, 5, 11, 4, 12, 3, 13, 2, 14, 1, 15]

/-- The describing code has the lengths given for it, and zero where none is given. -/
def IsDescribing (given lengths : List Nat) : Prop :=
  lengths.length = 19 ∧
    ∀ place symbol : Nat, describingOrder[place]? = some symbol →
      lengths[symbol]? = some (given.getD place 0)

/-- The bits give so many times the same length, after the previous one if there is one. -/
inductive Run (describing : List Nat) (previous? : Option Nat) :
    List Bool → (count : Nat) → (length : Nat) → Prop where
  | single {length : Nat} {code : List Bool}
      (hlength : length < 16)
      (hcode : IsCode describing length code) :
      Run describing previous? code 1 length
  | previous {length more : Nat} {code : List Bool}
      (hprevious : previous? = some length)
      (hcode : IsCode describing 16 code)
      (hmore : more < 2 ^ 2) :
      Run describing previous? (code ++ Bits.ofNat 2 more) (3 + more) length
  | zeros {more : Nat} {code : List Bool}
      (hcode : IsCode describing 17 code)
      (hmore : more < 2 ^ 3) :
      Run describing previous? (code ++ Bits.ofNat 3 more) (3 + more) 0
  | manyZeros {more : Nat} {code : List Bool}
      (hcode : IsCode describing 18 code)
      (hmore : more < 2 ^ 7) :
      Run describing previous? (code ++ Bits.ofNat 7 more) (11 + more) 0

/-- The bits continue a list of code lengths to the whole list. -/
inductive Runs (describing : List Nat) : List Nat → List Bool → List Nat → Prop where
  | stop {lengths : List Nat} : Runs describing lengths [] lengths
  | run {lengths all : List Nat} {count length : Nat} {run rest : List Bool}
      (hrun : Run describing lengths.getLast? run count length)
      (hrest : Runs describing (lengths ++ List.replicate count length) rest all) :
      Runs describing lengths (run ++ rest) all

/-- The bits describe the codes for literals and distances of a block. -/
inductive Describes (literals distances : List Nat) : List Bool → Prop where
  | intro {given describing : List Nat} {runs : List Bool}
      (hliterals : 257 ≤ literals.length ∧ literals.length ≤ 286)
      (hdistances : 1 ≤ distances.length ∧ distances.length ≤ 30)
      (hcount : 4 ≤ given.length ∧ given.length ≤ 19)
      (hgiven : ∀ length ∈ given, length < 2 ^ 3)
      (hdescribing : IsDescribing given describing)
      (hcomplete : IsComplete describing)
      (hruns : Runs describing [] runs (literals ++ distances))
      (husable : IsUsable literals ∧ IsUsable distances) :
      Describes literals distances
        (Bits.ofNat 5 (literals.length - 257) ++ Bits.ofNat 5 (distances.length - 1) ++
          Bits.ofNat 4 (given.length - 4) ++ given.flatMap (Bits.ofNat 3) ++ runs)

/-!
## Blocks

A block is preceded by so many bits of the stream, which matters only for a
block of stored bytes, since these begin at a byte boundary.
-/

inductive Block (position : Nat) : (final : Bool) → Bytes → List Bool → Bytes → Prop where
  | stored {final : Bool} {before : Bytes} {padding : List Bool} {bytes : Bytes}
      (hpadding : padding.length < 8)
      (haligned : (position + 3 + padding.length) % 8 = 0)
      (hlength : bytes.length < 2 ^ 16) :
      Block position final before
        ([final, false, false] ++ padding ++ Bits.ofNat 16 bytes.length ++
          Bits.ofNat 16 (65535 - bytes.length) ++ Bits.ofBytes bytes)
        (before ++ bytes)
  | fixed {final : Bool} {before after : Bytes} {tokens : List Bool}
      (htokens : Tokens fixedLiterals fixedDistances before tokens after) :
      Block position final before ([final, true, false] ++ tokens) after
  | described {final : Bool} {before after : Bytes} {literals distances : List Nat}
      {description tokens : List Bool}
      (hdescribes : Describes literals distances description)
      (htokens : Tokens literals distances before tokens after) :
      Block position final before ([final, false, true] ++ description ++ tokens) after

/-- Blocks none of which is the last one. -/
inductive OpenBlocks : (position : Nat) → Bytes → List Bool → Bytes → Prop where
  | nil {position : Nat} {content : Bytes} : OpenBlocks position content [] content
  | cons {position : Nat} {before middle after : Bytes} {block rest : List Bool}
      (hblock : Block position false before block middle)
      (hrest : OpenBlocks (position + block.length) middle rest after) :
      OpenBlocks position before (block ++ rest) after

/-!
## Streams
-/

/-- Two bytes that announce compressed content in a window of at most 32 KiB. -/
def IsHeader (method flags : UInt8) : Prop :=
  method.toNat % 16 = 8 ∧ method.toNat / 16 ≤ 7 ∧
    (256 * method.toNat + flags.toNat) % 31 = 0 ∧ flags.toNat / 32 % 2 = 0

def byteSum (bytes : Bytes) : Nat :=
  (bytes.map UInt8.toNat).sum

/--
The checksum of content.  The low half is the sum of all bytes, counted from
one, and the high half the sum of the values that the low half takes after each
byte, both modulo 65521.
-/
def checksum (content : Bytes) : Nat :=
  65536 * (((List.range content.length).map fun i =>
    1 + byteSum (content.take (i + 1))).sum % 65521) + (1 + byteSum content) % 65521

/-- A stream that is not ended: the header, and blocks none of which is the last one. -/
inductive OpenStream : List Bool → Bytes → Prop where
  | intro {method flags : UInt8} {blocks : List Bool} {content : Bytes}
      (hheader : IsHeader method flags)
      (hblocks : OpenBlocks 16 [] blocks content) :
      OpenStream (Bits.ofBytes [method, flags] ++ blocks) content

/-- The bytes are a zlib stream with this content. -/
inductive Stream : Bytes → Bytes → Prop where
  | intro {stream front content : Bytes} {opening last padding : List Bool}
      (hopening : OpenStream opening front)
      (hlast : Block opening.length true front last content)
      (hpadding : padding.length < 8)
      (haligned : (opening.length + last.length + padding.length) % 8 = 0)
      (hstream : Bits.ofBytes stream =
        opening ++ last ++ padding ++
          Bits.ofBytes (ByteOrder.big.encode 4 (checksum content))) :
      Stream stream content

/-!
## Beginnings of streams

What a beginning of a stream spells: the content of all literals, copies and stored
bytes the bits of which are all there.  Of a block this needs its description, and
nothing of what follows a literal, a copy or a byte.
-/

/-- Bits of a compressed block after its description, up to some token. -/
inductive OpenTokens (literals distances : List Nat) : Bytes → List Bool → Bytes → Prop where
  | nil {content : Bytes} : OpenTokens literals distances content [] content
  | literal {before after : Bytes} {byte : UInt8} {code rest : List Bool}
      (hcode : IsCode literals byte.toNat code)
      (hrest : OpenTokens literals distances (before ++ [byte]) rest after) :
      OpenTokens literals distances before (code ++ rest) after
  | copy {before middle after : Bytes} {lengthIndex distanceIndex length distance : Nat}
      {lengthCode lengthMore distanceCode distanceMore rest : List Bool}
      (hlengthCode : IsCode literals (257 + lengthIndex) lengthCode)
      (hlength : IsLength lengthIndex lengthMore length)
      (hdistanceCode : IsCode distances distanceIndex distanceCode)
      (hdistance : IsDistance distanceIndex distanceMore distance)
      (hrepeats : Repeats length distance before middle)
      (hrest : OpenTokens literals distances middle rest after) :
      OpenTokens literals distances before
        (lengthCode ++ lengthMore ++ distanceCode ++ distanceMore ++ rest) after

/-- A block that need not be there to its end, nor at all. -/
inductive OpenBlock (position : Nat) : Bytes → List Bool → Bytes → Prop where
  | nil {content : Bytes} : OpenBlock position content [] content
  | stored {final : Bool} {before : Bytes} {padding : List Bool} {length : Nat} {bytes : Bytes}
      (hpadding : padding.length < 8)
      (haligned : (position + 3 + padding.length) % 8 = 0)
      (hlength : length < 2 ^ 16)
      (hbytes : bytes.length ≤ length) :
      OpenBlock position before
        ([final, false, false] ++ padding ++ Bits.ofNat 16 length ++
          Bits.ofNat 16 (65535 - length) ++ Bits.ofBytes bytes)
        (before ++ bytes)
  | fixed {final : Bool} {before after : Bytes} {tokens : List Bool}
      (htokens : OpenTokens fixedLiterals fixedDistances before tokens after) :
      OpenBlock position before ([final, true, false] ++ tokens) after
  | described {final : Bool} {before after : Bytes} {literals distances : List Nat}
      {description tokens : List Bool}
      (hdescribes : Describes literals distances description)
      (htokens : OpenTokens literals distances before tokens after) :
      OpenBlock position before ([final, false, true] ++ description ++ tokens) after

/-- The bits, all of which count, are a beginning of a stream and spell this content. -/
inductive Spells : List Bool → Bytes → Prop where
  | nil : Spells [] []
  | block {opening front : List Bool} {before content : Bytes}
      (hopening : OpenStream opening before)
      (hfront : OpenBlock opening.length before front content) :
      Spells (opening ++ front) content

/-- Among the bits are all those of so many bytes of the content. -/
def Covers (bits : List Bool) (content : Bytes) (count : Nat) : Prop :=
  count ≤ content.length ∧ ∃ front, front <+: bits ∧ Spells front (content.take count)

end Format
end BoundedZlib
