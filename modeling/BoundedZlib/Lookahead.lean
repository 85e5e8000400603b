import BoundedZlib.Deflate.Block

/-!
# Taking input ahead of need

Input is taken in whole bytes.  A number takes the bytes that hold it.  A code
takes more than it may need, so that not every code has to ask for input: two
bytes near the end of the input or of the room, else four.  Where four are
taken, a literal is read together with the code that comes next; with plenty of
input and room, numbers take four bytes as well.

What was taken beyond need is handed back at the end of a run, so none of this
shows in what a stream means.  It shows in how many bytes a run consumes: a
stored byte that is already taken is read even if there is no room for it.
-/

namespace BoundedZlib

/-- The part of a stream that a run is given: its first bit and the bit after its last. -/
structure Stretch where
  first : Nat
  stop : Nat
deriving Repr, DecidableEq, Inhabited

/-- How much input the parts of a token take. -/
inductive Pace where
  /-- Codes take two bytes, as long as there are two. -/
  | careful
  /-- The first code takes four bytes, any other two. -/
  | steady
  /-- All parts take four bytes. -/
  | swift
deriving Repr, DecidableEq, Inhabited

/-- How far input is taken in the course of a run. -/
structure Lookahead where
  taken : Nat
  /-- The pace of a literal whose input also serves the next code. -/
  pair? : Option Pace
deriving Repr, DecidableEq, Inhabited

namespace Lookahead

def start (position : Nat) : Lookahead where
  taken := position + padding position
  pair? := none

def holds (look : Lookahead) (position width : Nat) : Bool :=
  position + width ≤ look.taken

/-!
## Taking
-/

def reach (look : Lookahead) (position : Nat) : Lookahead :=
  { look with taken := max look.taken (position + padding position) }

def pairWidth : Nat := 16

def wordWidth : Nat := 32

def wordSpare : Nat := 30

/-- Take two bytes, if there are two, unless any code is at hand whole. -/
def takePair (look : Lookahead) (stretch : Stretch) (position : Nat) : Lookahead :=
  if look.taken < position + CodeTree.maxLength ∧ look.taken + pairWidth ≤ stretch.stop then
    { look with taken := look.taken + pairWidth }
  else
    look

/-- Take four bytes, unless enough bits are at hand. -/
def takeWord (look : Lookahead) (position : Nat) : Lookahead :=
  if look.taken < position + wordSpare then
    { look with taken := look.taken + wordWidth }
  else
    look

/-!
## Parts read one by one
-/

def precedes (stretch : Stretch) (position : Nat) (part : Part) : Bool :=
  position + part.code ≤ stretch.first

def takePart (look : Lookahead) (stretch : Stretch) (position : Nat) (part : Part) : Lookahead :=
  let look := if precedes stretch position part then look else look.takePair stretch position
  look.reach (position + part.width)

def takeParts (look : Lookahead) (stretch : Stretch) : (position : Nat) → List Part → Lookahead
  | _, [] => look
  | position, part :: rest =>
      takeParts (look.takePart stretch position part) stretch (position + part.width) rest

/-!
## Tokens
-/

/-- Swift reading asks for this much input, in bits. -/
def swiftInput : Nat := 112

def swiftRoom : Nat := Token.maxCopy + 1

def pace (look : Lookahead) (stretch : Stretch) (room : Nat) : Pace :=
  if stretch.stop < look.taken + wordWidth ∨ room < 2 then .careful
  else if look.taken + swiftInput ≤ stretch.stop ∧ swiftRoom ≤ room then .swift
  else .steady

def takeFirst (look : Lookahead) (stretch : Stretch) (position : Nat) : Pace → Lookahead
  | .careful => look.takePair stretch position
  | .steady => look.takeWord position
  | .swift => look.takeWord position

def takeRest (look : Lookahead) (stretch : Stretch) (position : Nat) (length distance : Part) :
    Pace → Lookahead
  | .swift =>
      let look := look.takeWord (position + length.code)
      if distance.more = 0 then look
      else look.takeWord (position + length.width + distance.code)
  | _ =>
      (look.reach (position + length.width)).takePart stretch (position + length.width) distance

/--
Take the input of a token at a position, given its parts and the room that it
found.  What an earlier run has read takes nothing.
-/
def takeToken (look : Lookahead) (stretch : Stretch) (room position : Nat) :
    List Part → Lookahead
  | [] => look
  | code :: rest =>
      let look := look.reach position
      if precedes stretch position code then
        { look.takeParts stretch position (code :: rest) with pair? := none }
      else
        let pace := look.pair?.getD (look.pace stretch room)
        let second := look.pair?.isSome
        let taking := (if second then look else look.takeFirst stretch position pace).reach
          (position + code.code)
        match rest with
        | distance :: _ =>
            { taking.takeRest stretch position code distance pace with pair? := none }
        | [] => { taking with pair? := if second || pace == .careful then none else some pace }

/-- Take the input of the opening of a block, given where the parts begin that it ends with. -/
def takeOpening (look : Lookahead) (stretch : Stretch) (position : Nat) (parts : List Part) :
    Lookahead :=
  { (look.reach position).takeParts stretch position parts with pair? := none }

end Lookahead

end BoundedZlib
