import BoundedZlib.BitReader

/-!
# Huffman codes as trees

A Huffman code of DEFLATE is given by the code length of each symbol alone.
Codes are handed out in order of length, and among equal lengths in order of
symbol, always the first code still free.  Grown as a tree, that is: walk the
free places from left to right and give each symbol the next place at its
depth.
-/

namespace BoundedZlib

/-- A binary code tree; the first bit of a code chooses at the root. -/
inductive CodeTree where
  | unassigned
  | leaf (symbol : Nat)
  | fork (zero one : CodeTree)
deriving Repr, DecidableEq, Inhabited

namespace CodeTree

/-- The longest code.  A length of zero means that a symbol has no code. -/
abbrev maxLength : Nat := 15

def order (lengths : List Nat) : List (Nat × Nat) :=
  let numbered := lengths.zipIdx
  (List.range maxLength).flatMap fun i => numbered.filter fun entry => entry.1 == i + 1

/--
Grow the subtree at a depth from the symbols that have no place yet; what finds
no place in it is handed back.
-/
def grow : (levels depth : Nat) → List (Nat × Nat) → CodeTree × List (Nat × Nat)
  | _, _, [] => (unassigned, [])
  | levels, depth, (length, symbol) :: rest =>
      if length = depth then
        (leaf symbol, rest)
      else
        match levels with
        | 0 => (unassigned, (length, symbol) :: rest)
        | levels + 1 =>
            let (zero, left) := grow levels (depth + 1) ((length, symbol) :: rest)
            let (one, left) := grow levels (depth + 1) left
            (fork zero one, left)

/-- The code with these code lengths; over-subscribed lengths give none. -/
def ofLengths? (lengths : List Nat) : Option CodeTree :=
  let (zero, left) := grow (maxLength - 1) 1 (order lengths)
  let (one, left) := grow (maxLength - 1) 1 left
  if left.isEmpty then some (fork zero one) else none

def isComplete : CodeTree → Bool
  | unassigned => false
  | leaf _ => true
  | fork zero one => zero.isComplete && one.isComplete

def complete? (lengths : List Nat) : Option CodeTree :=
  (ofLengths? lengths).filter isComplete

/--
The code with these lengths, if it may stand in a block: it assigns every code,
or it is empty, or its only codes are single bits.
-/
def usable? (lengths : List Nat) : Option CodeTree :=
  (ofLengths? lengths).filter fun tree => tree.isComplete || lengths.all (· ≤ 1)

def reader : CodeTree → BitReader Nat
  | unassigned => .reject
  | leaf symbol => .done symbol
  | fork zero one => .bit fun b => if b then one.reader else zero.reader

end CodeTree

end BoundedZlib
