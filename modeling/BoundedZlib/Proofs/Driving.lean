import BoundedZlib.Proofs.DecoderSessions
import BoundedZlib.SingleShot.Inflate

/-!
# Driving a decoder

A call steps a session until a step decides.  Every call ends, and what it ends
with is decided by one step of a session that reads the input within the room
there is; whether the session fills the caller's buffer or a new one does not matter.
-/

namespace BoundedZlib

open SingleShot

namespace Inflate

/-!
## Verdicts
-/

theorem verdict_eq_ok {lengths : Lengths} {before after : Totals}
    {result : Except Fault Status} :
    verdict lengths before after result = some (.ok ()) ↔
      result = .ok .streamEnd ∧ after.produced = lengths.output := by
  cases result with
  | error fault => simp [verdict]
  | ok status =>
      cases status with
      | streamEnd => simp [verdict]
      | ok => simp [verdict]
      | stalled => simp [verdict]

theorem verdict_of_moved {lengths : Lengths} {before after : Totals}
    (hmoved : before.consumed + before.produced < after.consumed + after.produced)
    (hconsumed : after.consumed ≤ lengths.input)
    (hproduced : after.produced ≤ lengths.output) :
    verdict lengths before after (.ok .ok) = none := by
  have hne : cursors lengths after ≠ cursors lengths before := by
    intro hsame
    simp only [cursors, cursor, Prod.mk.injEq] at hsame
    omega
  simp only [verdict, if_pos hne]

theorem verdict_eq_none {lengths : Lengths} {before after : Totals}
    {result : Except Fault Status} :
    verdict lengths before after result = none ↔
      result = .ok .ok ∧ cursors lengths after ≠ cursors lengths before := by
  cases result with
  | error fault => simp [verdict]
  | ok status =>
      cases status with
      | streamEnd => simp [verdict]
      | ok => simp [verdict]
      | stalled => simp [verdict]

theorem stallError_ne_corrupted (lengths : Lengths) (totals : Totals) (message : String) :
    stallError lengths totals ≠ .corrupted message := by
  unfold stallError
  split
  · exact Error.noConfusion
  · split
    · exact Error.noConfusion
    · exact Error.noConfusion

/-!
## The step that decides
-/

section Deciding

variable {input : Bytes} {size : Nat} {session : Decoder} {delivered : Bytes}

def stepOf (input : Bytes) (size : Nat) (session : Decoder) : Decoder.Reply :=
  session.step (Decoder.offered input session (input.length + 1))
    (size - cursor session.totalOut size) .partly

/-- What the step that a call makes on a decoder decides, if it decides anything. -/
def decision (input : Bytes) (size : Nat) (session : Decoder) : Option (Except Error Unit) :=
  verdict ⟨input.length, size⟩ ⟨session.totalIn, session.totalOut⟩
    ⟨(stepOf input size session).session.totalIn, (stepOf input size session).session.totalOut⟩
    (stepOf input size session).result

theorem turn_eq (size : Nat) (hreading : session.Reading input delivered) :
    turn (decoding size) input size session =
      ((stepOf input size session).session, decision input size session) := by
  have hcursor : cursor session.totalIn input.length = session.totalIn :=
    Nat.min_eq_left hreading.totalIn_le
  have hinput : input.drop session.totalIn =
      Decoder.offered input session (input.length + 1) := by
    rw [Decoder.offered, List.take_of_length_le]
    rw [List.length_drop]
    omega
  simp only [turn, decoding, cursors, hcursor, hinput]
  rfl

theorem stepOf_reading (size : Nat) (hreading : session.Reading input delivered) :
    (stepOf input size session).session.Reading input
        (delivered ++ (stepOf input size session).output) ∧
      Decoder.Answers (Decoder.offered input session (input.length + 1))
        (stepOf input size session) := by
  rcases hreading.step (show Flush.partly ≠ .finish by decide) (input.length + 1)
    (size - cursor session.totalOut size) rfl with ⟨hnext, hanswers, _, _⟩
  exact ⟨hnext, hanswers⟩

theorem totals_stepOf (hreading : session.Reading input delivered)
    (hroom : session.totalOut ≤ size) :
    session.totalIn ≤ (stepOf input size session).session.totalIn ∧
      session.totalOut ≤ (stepOf input size session).session.totalOut ∧
      (stepOf input size session).session.totalIn ≤ input.length ∧
      (stepOf input size session).session.totalOut ≤ size := by
  rcases hreading.step (show Flush.partly ≠ .finish by decide) (input.length + 1)
    (size - cursor session.totalOut size) rfl with ⟨hnext, _, hlength, hin⟩
  have hout := hnext.follows.totalOut_eq
  rw [List.length_append, ← hreading.follows.totalOut_eq] at hout
  have hcursor : cursor session.totalOut size = session.totalOut := Nat.min_eq_left hroom
  rw [hcursor] at hlength hout hin hnext
  rw [stepOf, hcursor]
  exact ⟨hin, by omega, hnext.totalIn_le, by omega⟩

/--
A call ends within as many steps as there are bytes to consume and to deliver, and
one more; a step that does not decide brings it closer to its end.  What such steps
keep holds before the step that decides.
-/
theorem drive_decides {Holds : Decoder → Prop} {steps : Nat}
    (hkeeps : ∀ session delivered, session.Reading input delivered → session.totalOut ≤ size →
      Holds session → decision input size session = none →
        Holds (stepOf input size session).session)
    (hreading : session.Reading input delivered)
    (hroom : session.totalOut ≤ size)
    (hholds : Holds session)
    (hsteps : input.length + size < session.totalIn + session.totalOut + steps) :
    ∃ before given outcome, before.Reading input given ∧ before.totalOut ≤ size ∧
      Holds before ∧ decision input size before = some outcome ∧
      drive (decoding size) input size steps session =
        some ((stepOf input size before).session, outcome) := by
  induction steps generalizing session delivered with
  | zero =>
      have hin := hreading.totalIn_le
      omega
  | succ steps ih =>
      rcases totals_stepOf hreading hroom with ⟨hin, hout, hinLe, houtLe⟩
      have hturn := turn_eq size hreading
      cases hdecision : decision input size session with
      | some outcome =>
          refine ⟨session, delivered, outcome, hreading, hroom, hholds, hdecision, ?_⟩
          rw [drive, hturn, hdecision]
      | none =>
          have hmoved := (verdict_eq_none.mp hdecision).right
          simp only [cursors, cursor, ne_eq, Prod.mk.injEq] at hmoved
          have hnext := (stepOf_reading size hreading).left
          have hholds' := hkeeps session delivered hreading hroom hholds hdecision
          rcases ih hnext houtLe hholds' (by omega) with
            ⟨before, given, outcome, hbefore, hwithin, hholds, hends, hdrive⟩
          refine ⟨before, given, outcome, hbefore, hwithin, hholds, hends, ?_⟩
          rw [drive, hturn, hdecision]
          exact hdrive

theorem complete_of_decision (hreading : session.Reading input delivered)
    (hdecision : decision input size session = some (.ok ())) :
    (Inflater.after (Bits.ofBytes input)).isFinished = true ∧
      (Inflater.after (Bits.ofBytes input)).content.size = size ∧
      (stepOf input size session).session.inflater = Inflater.after (Bits.ofBytes input) := by
  rcases stepOf_reading size hreading with ⟨hnext, hanswers⟩
  rcases verdict_eq_ok.mp hdecision with ⟨hresult, hproduced⟩
  have hcomplete := hanswers.complete hresult
  rcases hnext.of_isComplete hcomplete with ⟨hafter, hall⟩
  rw [Decoder.isComplete, Bool.and_eq_true] at hcomplete
  rw [hafter]
  refine ⟨hcomplete.left, ?_, rfl⟩
  rw [← Array.length_toList, ← hall, ← hnext.follows.totalOut_eq]
  exact hproduced

theorem stepOf_ne_error (size : Nat)
    (hsound : (Inflater.after (Bits.ofBytes input)).hasFailed = false)
    (hreading : session.Reading input delivered) (fault : Fault) :
    (stepOf input size session).result ≠ .error fault := by
  intro hresult
  rcases stepOf_reading size hreading with ⟨hnext, hanswers⟩
  rcases hanswers.bound with hstreaming | ⟨_, hfailed⟩
  · rw [(hanswers.fault fault hresult).right] at hstreaming
    cases hstreaming
  · rw [hnext.after_of_hasFailed hfailed, hfailed] at hsound
    exact Bool.noConfusion hsound

/-!
## Steps on a stream
-/

theorem result_of_isFinished (size : Nat)
    (hfinished : (Inflater.after (Bits.ofBytes input)).isFinished = true)
    (hreading : session.Reading input delivered) :
    ((stepOf input size session).result = .ok .streamEnd ∧
        (stepOf input size session).session.totalOut =
          (Inflater.after (Bits.ofBytes input)).content.size) ∨
      (stepOf input size session).result = .ok .ok := by
  rcases stepOf_reading size hreading with ⟨hnext, hanswers⟩
  cases hresult : (stepOf input size session).result with
  | error fault =>
      have hsound := Inflater.hasFailed_of_isFinished hfinished
      exact absurd hresult (stepOf_ne_error size hsound hreading fault)
  | ok status =>
      cases status with
      | streamEnd =>
          rcases hnext.of_isComplete (hanswers.complete hresult) with ⟨hafter, hall⟩
          apply Or.inl
          rw [hnext.follows.totalOut_eq, hall, hafter, Array.length_toList]
          exact ⟨rfl, rfl⟩
      | ok => exact Or.inr rfl
      | stalled =>
          exact absurd hresult (hreading.not_stalled (show Flush.partly ≠ .finish by decide)
            (Nat.succ_pos input.length) rfl hfinished)

theorem moved_of_isFinished (hfinished : (Inflater.after (Bits.ofBytes input)).isFinished = true)
    (hreading : session.Reading input delivered)
    (hroom : session.totalOut < size ∨
      session.totalOut = (Inflater.after (Bits.ofBytes input)).content.size)
    (hresult : (stepOf input size session).result = .ok .ok) :
    session.totalIn + session.totalOut <
      (stepOf input size session).session.totalIn +
        (stepOf input size session).session.totalOut := by
  have hroom' : 0 < size - cursor session.totalOut size ∨
      session.totalOut = (Inflater.after (Bits.ofBytes input)).content.size := by
    rw [cursor]
    omega
  rcases hreading.progress (show Flush.partly ≠ .finish by decide)
    (Inflater.hasFailed_of_isFinished hfinished) (Nat.succ_pos input.length) hroom' rfl with
    ⟨_, hend⟩ | hmoved
  · rw [stepOf, hend hfinished] at hresult
    cases hresult
  · exact hmoved

/--
On a stream a session either has room for all content and reaches the end, or it
has less room, has filled it, and does not move.
-/
theorem decision_of_isFinished {outcome : Except Error Unit}
    (hfinished : (Inflater.after (Bits.ofBytes input)).isFinished = true)
    (hreading : session.Reading input delivered)
    (hroom : session.totalOut ≤ size)
    (hdecision : decision input size session = some outcome) :
    ((Inflater.after (Bits.ofBytes input)).content.size ≤ size ∧
        outcome = if (Inflater.after (Bits.ofBytes input)).content.size = size then .ok ()
          else .error (.unexpectedEnd size (Inflater.after (Bits.ofBytes input)).content.size)) ∨
      (size < (Inflater.after (Bits.ofBytes input)).content.size ∧
        ∃ consumed, outcome = .error (stallError ⟨input.length, size⟩ ⟨consumed, size⟩)) := by
  rcases totals_stepOf hreading hroom with ⟨_, hout, hinLe, houtLe⟩
  rcases result_of_isFinished size hfinished hreading with ⟨hresult, hall⟩ | hresult
  · rw [decision, hresult, verdict, hall, Option.some.injEq] at hdecision
    exact Or.inl ⟨hall ▸ houtLe, hdecision.symm⟩
  · by_cases hfull : session.totalOut = size ∧
        size < (Inflater.after (Bits.ofBytes input)).content.size
    · have hproduced : (stepOf input size session).session.totalOut = size :=
        Nat.le_antisymm houtLe (hfull.left ▸ hout)
      rw [decision, hresult, verdict, hproduced] at hdecision
      split at hdecision
      · cases hdecision
      · injection hdecision with hdecision
        exact Or.inr ⟨hfull.right, _, hdecision.symm⟩
    · -- The step has room, or nothing is left to deliver; so it moves, and does not decide.
      have hdeliverable := hreading.totalOut_le
      have hmoved := moved_of_isFinished hfinished hreading (by omega) hresult
      rw [decision, hresult, verdict_of_moved hmoved hinLe houtLe] at hdecision
      cases hdecision

end Deciding

/-!
## Filling a buffer
-/

theorem turn_filling (input buffer : Bytes) (session : Decoder) :
    ∃ filled : Bytes, filled.length = buffer.length ∧
      turn (filling Decoder.engine) input buffer.length ⟨session, buffer⟩ =
        (⟨(turn (decoding buffer.length) input buffer.length session).1, filled⟩,
          (turn (decoding buffer.length) input buffer.length session).2) := by
  have hslice : (buffer.drop (cursor session.totalOut buffer.length)).length =
      buffer.length - cursor session.totalOut buffer.length := List.length_drop
  refine ⟨_, length_buffer_advance Decoder.engine ⟨session, buffer⟩
    (input.drop (cursor session.totalIn input.length)), ?_⟩
  simp only [turn, decoding, filling, cursors, Decoder.engine, hslice]

theorem drive_filling (input : Bytes) {buffer : Bytes} {steps : Nat} {session last : Decoder}
    {outcome : Except Error Unit}
    (hdrive : drive (decoding buffer.length) input buffer.length steps session =
      some (last, outcome)) :
    ∃ filled, drive (filling Decoder.engine) input buffer.length steps ⟨session, buffer⟩ =
      some (⟨last, filled⟩, outcome) := by
  induction steps generalizing session buffer with
  | zero => cases hdrive
  | succ steps ih =>
      rcases turn_filling input buffer session with ⟨filled, hlength, hturn⟩
      rw [drive] at hdrive ⊢
      rw [hturn]
      generalize turn (decoding buffer.length) input buffer.length session = turned at hdrive ⊢
      rcases turned with ⟨next, outcome?⟩
      cases outcome? with
      | some decided =>
          injection hdrive with hdrive
          injection hdrive with hnext hdecided
          exact ⟨filled, by rw [hnext, hdecided]⟩
      | none =>
          rw [← hlength] at hdrive ⊢
          exact ih hdrive

end Inflate

/-!
## Calls
-/

theorem checkLengths_eq_ok {input output limit : Nat} :
    checkLengths input output limit = .ok () ↔ input ≤ limit ∧ output ≤ limit := by
  unfold checkLengths checkLength
  by_cases hinput : input ≤ limit
  · by_cases houtput : output ≤ limit
    · simp [hinput, houtput, bind, Except.bind]
    · simp [hinput, houtput, bind, Except.bind]
  · simp [hinput, bind, Except.bind]

/--
A call on buffers that the engine can count is made up of steps on a session that reads
the input, and ends with the step that decides; the buffer may be the caller's or a new
one.  What holds at first and is kept by steps that do not decide holds before that step.
-/
theorem inflate_runs_keeping {input : Bytes} {size : Nat} {Holds : Decoder → Prop}
    (hlengths : input.length ≤ 4294967295 ∧ size ≤ 4294967295)
    (hinitial : Holds Decoder.initial)
    (hkeeps : ∀ session delivered, session.Reading input delivered → session.totalOut ≤ size →
      Holds session → Inflate.decision input size session = none →
        Holds (Inflate.stepOf input size session).session) :
    ∃ before given outcome, before.Reading input given ∧ before.totalOut ≤ size ∧
      Holds before ∧ Inflate.decision input size before = some outcome ∧
      inflateToSize input size = Failure.lift (outcome.map fun () =>
        (Inflate.stepOf input size before).session.inflater.content.toList) ∧
      ∀ buffer : Bytes, buffer.length = size → ∃ filled,
        inflateWith Decoder.engine (Inflate.maxSteps ⟨input.length, size⟩) input buffer =
          some ⟨outcome, filled, some (.ok (Inflate.stepOf input size before).session)⟩ := by
  have hmax : Decoder.engine.maxLength = 4294967295 := rfl
  have hstart : Decoder.start {} = .ok Decoder.initial := rfl
  have hcheck := checkLengths_eq_ok.mpr hlengths
  have hsteps : input.length + size < 0 + 0 + Inflate.maxSteps ⟨input.length, size⟩ :=
    Nat.lt_of_lt_of_eq (Nat.lt_succ_self _) (Nat.zero_add _).symm
  rcases Inflate.drive_decides hkeeps (Decoder.initial_reading input) (Nat.zero_le size) hinitial
      hsteps with
    ⟨before, given, outcome, hreading, hroom, hholds, hdecision, hdrive⟩
  refine ⟨before, given, outcome, hreading, hroom, hholds, hdecision, ?_, ?_⟩
  · have hallocate : Failure.allocate size = .ok () :=
      if_pos (Nat.le_trans hlengths.right (by decide))
    simp only [inflateToSize, hallocate, inflateWithin, hmax, hcheck, hstart, Except.mapError,
      hdrive, bind, Except.bind]
  · intro buffer hbuffer
    subst hbuffer
    rcases Inflate.drive_filling input hdrive with ⟨filled, hfilling⟩
    have hengine : Decoder.engine.start {} = .ok Decoder.initial := rfl
    refine ⟨filled, ?_⟩
    simp only [inflateWith, hmax, hcheck, hengine, hfilling, Option.map_some]

theorem inflate_runs {input : Bytes} {size : Nat}
    (hlengths : input.length ≤ 4294967295 ∧ size ≤ 4294967295) :
    ∃ before given outcome, before.Reading input given ∧ before.totalOut ≤ size ∧
      Inflate.decision input size before = some outcome ∧
      inflateToSize input size = Failure.lift (outcome.map fun () =>
        (Inflate.stepOf input size before).session.inflater.content.toList) ∧
      ∀ buffer : Bytes, buffer.length = size → ∃ filled,
        inflateWith Decoder.engine (Inflate.maxSteps ⟨input.length, size⟩) input buffer =
          some ⟨outcome, filled, some (.ok (Inflate.stepOf input size before).session)⟩ := by
  rcases @inflate_runs_keeping input size (fun _ => True) hlengths trivial
      (fun _ _ _ _ _ _ => trivial) with
    ⟨before, given, outcome, hreading, hroom, _, hrest⟩
  exact ⟨before, given, outcome, hreading, hroom, hrest⟩

theorem inflate_eq {input buffer : Bytes} {run : Run Decoder Unit}
    (hrun : inflateWith Decoder.engine (Inflate.maxSteps ⟨input.length, buffer.length⟩) input
      buffer = some run) :
    inflate input buffer = run := by
  rw [inflate, hrun, Option.getD_some]

/--
A call on buffers that the engine can count is decided within its steps, by a step
of a session that reads the input; the buffer may be the caller's or a new one.
-/
theorem inflate_decided {input : Bytes} {size : Nat}
    (hlengths : input.length ≤ 4294967295 ∧ size ≤ 4294967295) :
    ∃ before given outcome, before.Reading input given ∧ before.totalOut ≤ size ∧
      Inflate.decision input size before = some outcome ∧
      inflateToSize input size = Failure.lift (outcome.map fun () =>
        (Inflate.stepOf input size before).session.inflater.content.toList) ∧
      ∀ buffer : Bytes, buffer.length = size →
        inflateWith Decoder.engine (Inflate.maxSteps ⟨input.length, size⟩) input buffer =
          some (inflate input buffer) ∧
        (inflate input buffer).outcome = outcome := by
  rcases inflate_runs hlengths with
    ⟨before, given, outcome, hreading, hroom, hdecision, hnew, hbuffers⟩
  refine ⟨before, given, outcome, hreading, hroom, hdecision, hnew, ?_⟩
  intro buffer hbuffer
  subst hbuffer
  rcases hbuffers buffer rfl with ⟨filled, hrun⟩
  rw [inflate_eq hrun]
  exact ⟨hrun, rfl⟩

end BoundedZlib
