import BoundedZlib.Bits

/-!
# Engines

An engine is a codec that works in steps.  A session is started once and then
advanced by steps, each of which sees the input not yet consumed and the part
of the caller's buffer not yet filled.  What a step achieved is read off the
session's running totals, not off its answer.
-/

namespace BoundedZlib

/-- How urgently a step is asked to bring out what it holds back. -/
inductive Flush where
  /-- Keep data back for better compression. -/
  | none
  /-- Bring out output at every opportunity. -/
  | partly
  /-- Bring out everything, up to a byte boundary. -/
  | sync
  /-- As `sync`, and forget the history. -/
  | full
  | finish
deriving Repr, DecidableEq, Inhabited

inductive Status where
  | ok
  | streamEnd
  /-- Nothing could be done: the input ran out, or the output is full. -/
  | stalled
deriving Repr, DecidableEq, Inhabited

inductive Fault where
  | data (message : String)
  | memory
  | needDictionary
  | stream (message : String)
deriving Repr, DecidableEq, Inhabited

namespace Fault

def message : Fault → String
  | data text => "data error: " ++ text
  | memory => "insufficient memory"
  | needDictionary => "need dictionary"
  | stream text => "stream error: " ++ text

end Fault

structure Step (σ : Type) where
  session : σ
  slice : Bytes
  result : Except Fault Status

/-- An engine with settings of type `ρ` and sessions of type `σ`. -/
structure Engine (ρ σ : Type) where
  maxLength : Nat := 4294967295
  start : ρ → Except Fault σ
  step : σ → (input slice : Bytes) → Flush → Step σ
  totalIn : σ → Nat
  totalOut : σ → Nat
  /-- A step writes into its slice and cannot change its length. -/
  length_slice : ∀ session input slice flush,
    (step session input slice flush).slice.length = slice.length

/-- Write at the front of a slice; what does not fit is lost. -/
def Bytes.overwrite (slice written : Bytes) : Bytes :=
  written.take slice.length ++ slice.drop written.length

@[simp] theorem Bytes.length_overwrite (slice written : Bytes) :
    (Bytes.overwrite slice written).length = slice.length := by
  simp only [Bytes.overwrite, List.length_append, List.length_take, List.length_drop]
  omega

end BoundedZlib
