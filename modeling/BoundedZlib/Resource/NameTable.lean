import BoundedZlib.Bits
import BoundedZlib.Error

/-!
# Tables of names

A table is a sequence of bytes in which names stand one after the other, each
ended by a zero byte.  A name is addressed by the offset of its first byte, so
every ending of a name can be addressed as well.  The last name of a table that
comes from elsewhere may lack its zero byte.
-/

namespace BoundedZlib

namespace Resource

def nameBytes (name : String) : Bytes :=
  name.toUTF8.data.toList

def nameOfBytes? (bytes : Bytes) : Option String :=
  String.fromUTF8? ⟨bytes.toArray⟩

structure NameTable where
  bytes : Bytes := []
deriving Repr, DecidableEq, Inhabited

namespace NameTable

def maxOffset : Nat := 4294967295

def offset (place : Nat) : Except Error UInt32 :=
  if place ≤ maxOffset then .ok (UInt32.ofNat place) else .error (.nameTableFull place)

/-!
## Entries
-/

/--
Look for an entry among bytes, from a place where an entry begins on.  `latest`
holds what the current entry has so far, last byte first.  An unfinished entry
at the end counts, unless it is empty.
-/
def search (name : Bytes) : (place : Nat) → (latest : Bytes) → Bytes → Option Nat
  | place, latest, [] =>
      if latest.reverse = name ∧ latest ≠ [] then some place else none
  | place, latest, byte :: rest =>
      if byte = 0 then
        if latest.reverse = name then some place
        else search name (place + latest.length + 1) [] rest
      else
        search name place (byte :: latest) rest

def find? (table : NameTable) (name : String) : Option Nat :=
  search (nameBytes name) 0 [] table.bytes

/-!
## Growing

A table grows in place.  The offset is made before anything is appended, so a call
that has none to give fails with the table as it is.
-/

def adding (name : String) : EStateM Error NameTable UInt32 := do
  let table ← get
  let place ← ofExcept (offset table.bytes.length)
  set (NameTable.mk (table.bytes ++ nameBytes name ++ [0]))
  return place

def interning (name : String) : EStateM Error NameTable UInt32 := do
  let table ← get
  match table.find? name with
  | some place => ofExcept (offset place)
  | none => adding name

def grown (table : NameTable) (growing : EStateM Error NameTable UInt32) :
    Except Error (UInt32 × NameTable) :=
  match growing.run table with
  | .ok place after => .ok (place, after)
  | .error error _ => .error error

def add (table : NameTable) (name : String) : Except Error (UInt32 × NameTable) :=
  table.grown (adding name)

def intern (table : NameTable) (name : String) : Except Error (UInt32 × NameTable) :=
  table.grown (interning name)

/-!
## Looking up
-/

def get (table : NameTable) (offset : UInt32) : Except Error String :=
  let tail := table.bytes.drop offset.toNat
  if tail.isEmpty then
    .error (.nameNotFound offset.toNat)
  else
    match nameOfBytes? (tail.takeWhile (· != 0)) with
    | none => .error (.nameNotFound offset.toNat)
    | some name => .ok name

end NameTable

end Resource

end BoundedZlib
