/-!
# Settings of a session

What a caller may ask of an engine when a session starts, the values that are
used when nothing is asked, and the room that a compressed stream may need.
-/

namespace BoundedZlib

structure Level where
  value : Nat
  value_le : value ≤ 9 := by decide
deriving Repr, DecidableEq

namespace Level

def ofNat (number : Nat) : Level :=
  ⟨min number 9, Nat.min_le_right number 9⟩

def none : Level := ⟨0, by decide⟩

def fast : Level := ⟨1, by decide⟩

def balanced : Level := ⟨6, by decide⟩

def best : Level := ⟨9, by decide⟩

instance : Inhabited Level := ⟨balanced⟩

end Level

inductive Method where
  | deflate
deriving Repr, DecidableEq, Inhabited

def Method.number : Method → Nat
  | deflate => 8

inductive Strategy where
  | standard
  | filtered
  | huffmanOnly
  /-- Repeat the last byte only. -/
  | rle
  | fixed
deriving Repr, DecidableEq, Inhabited

def Strategy.name : Strategy → String
  | standard => "Default"
  | filtered => "Filtered"
  | huffmanOnly => "HuffmanOnly"
  | rle => "Rle"
  | fixed => "Fixed"

def maxWindowBits : Nat := 15

def defaultMemoryLevel : Nat := 8

structure InflateSettings where
  windowBits : Nat := maxWindowBits
deriving Repr, DecidableEq, Inhabited

structure DeflateSettings where
  level : Level := .balanced
  method : Method := .deflate
  windowBits : Nat := maxWindowBits
  memoryLevel : Nat := defaultMemoryLevel
  strategy : Strategy := .standard
deriving Repr, DecidableEq, Inhabited

/-- The largest number of 64 bits, at which sizes saturate. -/
def maxSize : Nat := 18446744073709551615

/-- Room that the stream of so many bytes never exceeds. -/
def compressBound (length : Nat) : Nat :=
  min (length + length >>> 12 + length >>> 14 + length >>> 25 + 13) maxSize

end BoundedZlib
