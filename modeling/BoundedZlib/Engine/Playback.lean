import BoundedZlib.Engine

/-!
# An engine that plays back a script

A script fixes in advance what each step of a session will do.  Its engine
shows how a caller deals with any engine at all, also with one whose totals
jump or whose faults come out of nowhere.  The session keeps a record of the
calls it received.
-/

namespace BoundedZlib

structure Cue where
  consume : Nat
  produce : Nat
  fill : UInt8 := 0x5A
  /-- The total that replaces the count of consumed bytes. -/
  totalIn? : Option Nat := none
  totalOut? : Option Nat := none
  result : Except Fault Status

/-- A session's whole behaviour. -/
structure Script where
  maxLength : Nat := 4294967295
  /-- The fault with which no session starts. -/
  startFault? : Option Fault := none
  totalIn : Nat := 0
  totalOut : Nat := 0
  cues : List Cue := []

structure Call where
  inputLength : Nat
  outputLength : Nat
  inputFirst? : Option UInt8
  flush : Flush
  totalIn : Nat
  totalOut : Nat
deriving Repr, DecidableEq, Inhabited

structure Playback where
  cues : List Cue
  totalIn : Nat
  totalOut : Nat
  calls : List Call := []

namespace Playback

/-- Totals are counted in 64 bits. -/
def addTotal (total count : Nat) : Nat :=
  (total + count) % 18446744073709551616

def start (script : Script) : Except Fault Playback :=
  match script.startFault? with
  | some fault => .error fault
  | none => .ok { cues := script.cues, totalIn := script.totalIn, totalOut := script.totalOut }

def step (session : Playback) (input slice : Bytes) (flush : Flush) : Step Playback :=
  let call : Call :=
    { inputLength := input.length
      outputLength := slice.length
      inputFirst? := input.head?
      flush := flush
      totalIn := session.totalIn
      totalOut := session.totalOut }
  match session.cues with
  | [] => ⟨{ session with calls := call :: session.calls }, slice, .ok .stalled⟩
  | cue :: cues =>
      let consumed := min cue.consume input.length
      let produced := min cue.produce slice.length
      ⟨{ cues := cues
         totalIn := cue.totalIn?.getD (addTotal session.totalIn consumed)
         totalOut := cue.totalOut?.getD (addTotal session.totalOut produced)
         calls := call :: session.calls },
        Bytes.overwrite slice (List.replicate produced cue.fill), cue.result⟩

theorem length_slice_step (session : Playback) (input slice : Bytes) (flush : Flush) :
    (session.step input slice flush).slice.length = slice.length := by
  unfold step
  cases session.cues with
  | nil => rfl
  | cons cue cues => exact Bytes.length_overwrite _ _

def engine (ρ : Type) (script : Script) : Engine ρ Playback where
  maxLength := script.maxLength
  start _ := start script
  step := step
  totalIn := totalIn
  totalOut := totalOut
  length_slice := length_slice_step

end Playback

end BoundedZlib
