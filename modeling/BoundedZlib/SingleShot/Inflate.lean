import BoundedZlib.Decoder
import BoundedZlib.SingleShot

/-!
# Inflating to an exact size

The caller declares the size of the content by the length of the output
buffer.  A call succeeds only if the stream ends having produced exactly that
many bytes.  The session is stepped for as long as a step moves one of the two
cursors; the first step that does not, or that ends the stream, decides.
-/

namespace BoundedZlib

open SingleShot

namespace Inflate

/-!
## Verdicts
-/

def outputFull : Error :=
  .internal .inflate "output buffer full before end of stream"

def noProgress : Error :=
  .internal .inflate "no progress possible"

def stepError : Fault → Error
  | .data message => .corrupted message
  | .memory => .outOfMemory .inflate
  | fault => .internal .inflate fault.message

structure Totals where
  consumed : Nat
  produced : Nat
deriving Repr, DecidableEq, Inhabited

structure Lengths where
  input : Nat
  output : Nat
deriving Repr, DecidableEq, Inhabited

def cursors (lengths : Lengths) (totals : Totals) : Nat × Nat :=
  (cursor totals.consumed lengths.input, cursor totals.produced lengths.output)

/-- The error of a session that stands still at these totals. -/
def stallError (lengths : Lengths) (totals : Totals) : Error :=
  if lengths.output ≠ 0 ∧ cursor totals.produced lengths.output = lengths.output then
    outputFull
  else if lengths.input ≤ cursor totals.consumed lengths.input then
    .unexpectedEnd lengths.output totals.produced
  else
    noProgress

/-- The outcome that a step decides, if it decides one, from the totals around it. -/
def verdict (lengths : Lengths) (before after : Totals) :
    Except Fault Status → Option (Except Error Unit)
  | .error fault => some (.error (stepError fault))
  | .ok .streamEnd =>
      some (if after.produced = lengths.output then .ok ()
        else .error (.unexpectedEnd lengths.output after.produced))
  | .ok .ok =>
      if cursors lengths after ≠ cursors lengths before then none
      else some (.error (stallError lengths after))
  | .ok .stalled => some (.error (stallError lengths after))

/-!
## Driving
-/

/-- What a call drives: a session, with whatever it fills. -/
structure Source (τ : Type) where
  totals : τ → Totals
  advance : τ → (input : Bytes) → τ × Except Fault Status

def turn {τ : Type} (source : Source τ) (input : Bytes) (output : Nat) (state : τ) :
    τ × Option (Except Error Unit) :=
  let lengths : Lengths := ⟨input.length, output⟩
  let before := source.totals state
  let (next, result) := source.advance state (input.drop (cursors lengths before).1)
  (next, verdict lengths before (source.totals next) result)

/-- Step until a step decides; the number of steps is limited. -/
def drive {τ : Type} (source : Source τ) (input : Bytes) (output : Nat) :
    (steps : Nat) → τ → Option (τ × Except Error Unit)
  | 0, _ => none
  | steps + 1, state =>
      match turn source input output state with
      | (next, some outcome) => some (next, outcome)
      | (next, none) => drive source input output steps next

structure Progress (σ : Type) where
  session : σ
  buffer : Bytes

/-- An engine that fills the caller's buffer from the cursor on. -/
def filling {σ : Type} (engine : Engine InflateSettings σ) : Source (Progress σ) where
  totals progress :=
    ⟨engine.totalIn progress.session, engine.totalOut progress.session⟩
  advance progress input :=
    let produced := cursor (engine.totalOut progress.session) progress.buffer.length
    let step := engine.step progress.session input (progress.buffer.drop produced) .partly
    (⟨step.session, progress.buffer.take produced ++ step.slice⟩, step.result)

/-- A decoder that fills a new buffer of the given size; its content is the buffer. -/
def decoding (size : Nat) : Source Decoder where
  totals session := ⟨session.totalIn, session.totalOut⟩
  advance session input :=
    let reply := session.step input (size - cursor session.totalOut size) .partly
    (reply.session, reply.result)

theorem length_buffer_advance {σ : Type} (engine : Engine InflateSettings σ)
    (progress : Progress σ) (input : Bytes) :
    ((filling engine).advance progress input).1.buffer.length = progress.buffer.length := by
  have bound := cursor_le (engine.totalOut progress.session) progress.buffer.length
  simp only [filling, List.length_append, List.length_take, engine.length_slice, List.length_drop]
  omega

end Inflate

/-!
## Calls
-/

/--
Inflate into a buffer by an engine.  The result is none if no step decides
within the given number of steps.
-/
def inflateWith {σ : Type} (engine : Engine InflateSettings σ) (steps : Nat)
    (input buffer : Bytes) : Option (Run σ Unit) :=
  match checkLengths input.length buffer.length engine.maxLength with
  | .error error => some ⟨.error error, buffer, none⟩
  | .ok () =>
      match engine.start {} with
      | .error fault => some ⟨.error (startError .inflateInit fault), buffer, some (.error fault)⟩
      | .ok session =>
          (Inflate.drive (Inflate.filling engine) input buffer.length steps
            ⟨session, buffer⟩).map fun (progress, outcome) =>
              ⟨outcome, progress.buffer, some (.ok progress.session)⟩

/--
The steps that any call needs at most: every step that does not decide moves a
cursor.
-/
def Inflate.maxSteps (lengths : Inflate.Lengths) : Nat :=
  lengths.input + lengths.output + 1

def inflate (input buffer : Bytes) : Run Decoder Unit :=
  (inflateWith Decoder.engine (Inflate.maxSteps ⟨input.length, buffer.length⟩) input buffer).getD
    ⟨.error Inflate.noProgress, buffer, none⟩

/--
Inflate a complete zlib stream of exactly this size.  Nothing is kept of a new
buffer that is not filled, so only its size matters.
-/
def inflateWithin (input : Bytes) (size : Nat) : Except Error Bytes := do
  checkLengths input.length size Decoder.engine.maxLength
  let session ← (Decoder.start {}).mapError (startError .inflateInit)
  match Inflate.drive (Inflate.decoding size) input size
      (Inflate.maxSteps ⟨input.length, size⟩) session with
  | none => .error Inflate.noProgress
  | some (session, outcome) => outcome.map fun () => session.inflater.content.toList

def inflateToSize (input : Bytes) (size : Nat) : Except Failure Bytes := do
  Failure.allocate size
  Failure.lift (inflateWithin input size)

end BoundedZlib
