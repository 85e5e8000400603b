import BoundedZlib.Bits

/-!
# Reading bit by bit

A `BitReader` is a decision tree over the bits still to come.  Feeding it
one bit walks one edge, so a reader can be put aside whenever the input runs
out and taken up again later, and a malformed element is refused by the first
bit that shows it.
-/

namespace BoundedZlib

/-- What is left to read of a value of type `α`. -/
inductive BitReader (α : Type) where
  | done (value : α)
  | bit (next : Bool → BitReader α)
  | reject

namespace BitReader

def feed {α : Type} : BitReader α → Bool → BitReader α
  | bit next, b => next b
  | reader, _ => reader

def bind {α β : Type} : BitReader α → (α → BitReader β) → BitReader β
  | done value, follow => follow value
  | bit next, follow => bit fun b => (next b).bind follow
  | reject, _ => reject

instance : Monad BitReader where
  pure := done
  bind := bind

def ofOption {α : Type} : Option α → BitReader α
  | none => reject
  | some value => done value

def natFrom : (width unit value : Nat) → BitReader Nat
  | 0, _, value => done value
  | width + 1, unit, value =>
      bit fun b => natFrom width (2 * unit) (if b then value + unit else value)

def nat (width : Nat) : BitReader Nat :=
  natFrom width 1 0

def skip : Nat → BitReader Unit
  | 0 => done ()
  | count + 1 => bit fun _ => skip count

def replicate {α : Type} : Nat → BitReader α → BitReader (List α)
  | 0, _ => return []
  | count + 1, reader => do
      let value ← reader
      let rest ← replicate count reader
      return value :: rest

/-- Read a value and tell how many bits it took, `width` of which are read before. -/
def measuredFrom {α : Type} (width : Nat) : BitReader α → BitReader (α × Nat)
  | done value => done (value, width)
  | bit next => bit fun b => measuredFrom (width + 1) (next b)
  | reject => reject

def measured {α : Type} (reader : BitReader α) : BitReader (α × Nat) :=
  reader.measuredFrom 0

/-!
## Laws
-/

@[simp] theorem pure_eq_done {α : Type} (value : α) :
    (pure value : BitReader α) = done value := rfl

@[simp] theorem bind_eq_bind {α β : Type} (reader : BitReader α) (follow : α → BitReader β) :
    reader >>= follow = reader.bind follow := rfl

@[simp] theorem done_bind {α β : Type} (value : α) (follow : α → BitReader β) :
    (done value).bind follow = follow value := rfl

@[simp] theorem reject_bind {α β : Type} (follow : α → BitReader β) :
    (reject : BitReader α).bind follow = reject := rfl

@[simp] theorem bit_bind {α β : Type} (next : Bool → BitReader α) (follow : α → BitReader β) :
    (bit next).bind follow = bit fun b => (next b).bind follow := rfl

end BitReader

end BoundedZlib
