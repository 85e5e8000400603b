import BoundedZlib.Proofs.Driving

/-!
# What a call and an engine tell each other

An engine may answer anything at all: its totals may start anywhere, jump and go
back, and its faults come in any order.  So what a call does with it is told by what
the engine is given.  A recorded engine is the same engine and keeps all that it is
given and all that it answers; its record shows that a call hands on the rest of the
input and of the buffer, and that it is decided by its last step alone.
-/

namespace BoundedZlib

/-!
## Recording an engine
-/

/-- One step of a session: the session before it, what it was given, and its answer. -/
structure Exchange (σ : Type) where
  session : σ
  input : Bytes
  slice : Bytes
  flush : Flush
  answer : Step σ

/-- A session with all steps that it made, the earliest first. -/
structure Recording (σ : Type) where
  session : σ
  exchanges : List (Exchange σ)

/-- The same engine, which keeps what it is given and what it answers. -/
def Engine.recorded {ρ σ : Type} (engine : Engine ρ σ) : Engine ρ (Recording σ) where
  maxLength := engine.maxLength
  start settings := (engine.start settings).map fun session => ⟨session, []⟩
  step recording input slice flush :=
    let answer := engine.step recording.session input slice flush
    ⟨⟨answer.session,
      recording.exchanges ++ [⟨recording.session, input, slice, flush, answer⟩]⟩,
      answer.slice, answer.result⟩
  totalIn recording := engine.totalIn recording.session
  totalOut recording := engine.totalOut recording.session
  length_slice recording := engine.length_slice recording.session

def Run.unrecorded {σ α : Type} (run : Run (Recording σ) α) : Run σ α :=
  ⟨run.outcome, run.buffer, run.session?.map fun session => session.map Recording.session⟩

namespace Exchange

variable {ρ σ : Type} (engine : Engine ρ σ) (exchange : Exchange σ)

def Moves (input output : Nat) : Prop :=
  min (engine.totalIn exchange.answer.session) input ≠
      min (engine.totalIn exchange.session) input ∨
    min (engine.totalOut exchange.answer.session) output ≠
      min (engine.totalOut exchange.session) output

/-- The step takes back nothing that the totals count. -/
def IsMonotone : Prop :=
  engine.totalIn exchange.session ≤ engine.totalIn exchange.answer.session ∧
    engine.totalOut exchange.session ≤ engine.totalOut exchange.answer.session

/-- What a call decides after this step, if it decides anything. -/
def verdict (input output : Nat) : Option (Except Error Unit) :=
  Inflate.verdict ⟨input, output⟩
    ⟨engine.totalIn exchange.session, engine.totalOut exchange.session⟩
    ⟨engine.totalIn exchange.answer.session, engine.totalOut exchange.answer.session⟩
    exchange.answer.result

variable {engine exchange} {input output : Nat} {outcome : Except Error Unit}

theorem verdict_eq_none_iff :
    exchange.verdict engine input output = none ↔
      exchange.answer.result = .ok .ok ∧ exchange.Moves engine input output := by
  rw [verdict, Inflate.verdict_eq_none, Moves]
  simp only [Inflate.cursors, SingleShot.cursor, ne_eq, Prod.mk.injEq, not_and_or]

theorem outcome_eq_ok_iff (hverdict : exchange.verdict engine input output = some outcome) :
    outcome = .ok () ↔ exchange.answer.result = .ok .streamEnd ∧
      engine.totalOut exchange.answer.session = output := by
  rw [← Option.some_inj, ← hverdict, verdict, Inflate.verdict_eq_ok]

end Exchange

namespace Inflate

open SingleShot

section Exchanges

variable {σ : Type}

/--
The steps that a call makes from a session and a buffer on, up to another session and
buffer.  Each step is given the part of the input and the part of the buffer behind
the totals of its session, as far as these lie within, and the next one goes on with
what it leaves.
-/
inductive Exchanges (engine : Engine InflateSettings σ) (input : Bytes) :
    σ → Bytes → List (Exchange σ) → σ → Bytes → Prop where
  | nil {session : σ} {buffer : Bytes} : Exchanges engine input session buffer [] session buffer
  | cons {session last : σ} {buffer used left filled slice final : Bytes} {answer : Step σ}
      {rest : List (Exchange σ)}
      (hinput : input = used ++ left)
      (hused : used.length = min (engine.totalIn session) input.length)
      (hbuffer : buffer = filled ++ slice)
      (hfilled : filled.length = min (engine.totalOut session) buffer.length)
      (hanswer : engine.step session left slice .partly = answer)
      (hrest : Exchanges engine input answer.session (filled ++ answer.slice) rest last final) :
      Exchanges engine input session buffer (⟨session, left, slice, .partly, answer⟩ :: rest)
        last final

variable {engine : Engine InflateSettings σ} {input buffer : Bytes} {session last : σ}

theorem Exchanges.append_iff {front back : List (Exchange σ)} {final : Bytes} :
    Exchanges engine input session buffer (front ++ back) last final ↔
      ∃ now filled, Exchanges engine input session buffer front now filled ∧
        Exchanges engine input now filled back last final := by
  constructor
  · intro h
    induction front generalizing session buffer with
    | nil => exact ⟨session, buffer, .nil, h⟩
    | cons exchange front ih =>
        cases h with
        | cons hinput hused hbuffer hfilled hanswer hrest =>
            rcases ih hrest with ⟨now, filled, hfront, hback⟩
            exact ⟨now, filled, .cons hinput hused hbuffer hfilled hanswer hfront, hback⟩
  · intro h
    rcases h with ⟨now, filled, hfront, hback⟩
    induction hfront with
    | nil => exact hback
    | cons hinput hused hbuffer hfilled hanswer _ ih =>
        exact .cons hinput hused hbuffer hfilled hanswer (ih hback)

theorem Exchanges.length_eq {exchanges : List (Exchange σ)} {final : Bytes}
    (hexchanges : Exchanges engine input session buffer exchanges last final) :
    final.length = buffer.length := by
  induction hexchanges with
  | nil => rfl
  | cons _ _ hbuffer _ hanswer _ ih =>
      rw [ih, ← hanswer, hbuffer, List.length_append, List.length_append, engine.length_slice]

/-!
## The steps of a call
-/

theorem turn_recorded (engine : Engine InflateSettings σ) (input buffer : Bytes)
    (recording : Recording σ) :
    ∃ used left filled slice answer, input = used ++ left ∧
      used.length = min (engine.totalIn recording.session) input.length ∧
      buffer = filled ++ slice ∧
      filled.length = min (engine.totalOut recording.session) buffer.length ∧
      engine.step recording.session left slice .partly = answer ∧
      turn (filling engine.recorded) input buffer.length ⟨recording, buffer⟩ =
        (⟨⟨answer.session,
            recording.exchanges ++ [⟨recording.session, left, slice, .partly, answer⟩]⟩,
          filled ++ answer.slice⟩,
          Exchange.verdict engine ⟨recording.session, left, slice, .partly, answer⟩
            input.length buffer.length) := by
  refine ⟨_, _, _, _, _, (List.take_append_drop (cursor (engine.totalIn recording.session)
    input.length) input).symm, ?_, (List.take_append_drop (cursor (engine.totalOut
      recording.session) buffer.length) buffer).symm, ?_, rfl, rfl⟩
  · rw [List.length_take, cursor, Nat.min_assoc, Nat.min_self]
  · rw [List.length_take, cursor, Nat.min_assoc, Nat.min_self]

theorem exchanges_of_drive {steps : Nat} {recording : Recording σ}
    {progress : Progress (Recording σ)} {outcome : Except Error Unit}
    (hdrive : drive (filling engine.recorded) input buffer.length steps ⟨recording, buffer⟩ =
      some (progress, outcome)) :
    ∃ front last,
      progress.session = ⟨last.answer.session, recording.exchanges ++ (front ++ [last])⟩ ∧
      Exchanges engine input recording.session buffer (front ++ [last]) last.answer.session
        progress.buffer ∧
      (∀ exchange ∈ front, exchange.verdict engine input.length buffer.length = none) ∧
      last.verdict engine input.length buffer.length = some outcome := by
  induction steps generalizing recording buffer with
  | zero => cases hdrive
  | succ steps ih =>
      rcases turn_recorded engine input buffer recording with
        ⟨used, left, filled, slice, answer, hinput, hused, hbuffer, hfilled, hanswer, hturn⟩
      rw [drive, hturn] at hdrive
      cases hverdict : Exchange.verdict engine ⟨recording.session, left, slice, .partly, answer⟩
        input.length buffer.length with
      | some decided =>
          rw [hverdict] at hdrive
          injection hdrive with hdrive
          injection hdrive with hprogress hdecided
          subst hprogress hdecided
          exact ⟨[], _, rfl, .cons hinput hused hbuffer hfilled hanswer .nil,
            fun _ hmem => absurd hmem List.not_mem_nil, hverdict⟩
      | none =>
          have hlength : (filled ++ answer.slice).length = buffer.length := by
            rw [← hanswer, hbuffer, List.length_append, List.length_append, engine.length_slice]
          rw [hverdict, ← hlength] at hdrive
          rcases ih hdrive with ⟨front, last, hsession, hexchanges, hfront, hlast⟩
          rw [hlength] at hfront hlast
          refine ⟨_ :: front, last, ?_, .cons hinput hused hbuffer hfilled hanswer hexchanges, ?_,
            hlast⟩
          · rw [hsession, List.append_assoc]
            rfl
          · intro exchange hmem
            cases hmem with
            | head => exact hverdict
            | tail _ hmem => exact hfront exchange hmem

theorem exchanges_of_drive_eq_none {steps : Nat} {recording : Recording σ}
    (hdrive : drive (filling engine.recorded) input buffer.length steps ⟨recording, buffer⟩ =
      none) :
    ∃ exchanges last final,
      Exchanges engine input recording.session buffer exchanges last final ∧
      exchanges.length = steps ∧
      ∀ exchange ∈ exchanges, exchange.verdict engine input.length buffer.length = none := by
  induction steps generalizing recording buffer with
  | zero => exact ⟨[], _, _, .nil, rfl, fun _ hmem => absurd hmem List.not_mem_nil⟩
  | succ steps ih =>
      rcases turn_recorded engine input buffer recording with
        ⟨used, left, filled, slice, answer, hinput, hused, hbuffer, hfilled, hanswer, hturn⟩
      rw [drive, hturn] at hdrive
      cases hverdict : Exchange.verdict engine ⟨recording.session, left, slice, .partly, answer⟩
        input.length buffer.length with
      | some decided =>
          rw [hverdict] at hdrive
          cases hdrive
      | none =>
          have hlength : (filled ++ answer.slice).length = buffer.length := by
            rw [← hanswer, hbuffer, List.length_append, List.length_append, engine.length_slice]
          rw [hverdict, ← hlength] at hdrive
          rcases ih hdrive with ⟨exchanges, last, final, hexchanges, hsteps, hnone⟩
          rw [hlength] at hnone
          refine ⟨_ :: exchanges, last, final,
            .cons hinput hused hbuffer hfilled hanswer hexchanges, ?_, ?_⟩
          · rw [List.length_cons, hsteps]
          · intro exchange hmem
            cases hmem with
            | head => exact hverdict
            | tail _ hmem => exact hnone exchange hmem

/--
Steps that move and take nothing back are no more than the two places in the input and
the buffer go forward.
-/
theorem Exchanges.length_add_le {exchanges : List (Exchange σ)} {final : Bytes}
    (hexchanges : Exchanges engine input session buffer exchanges last final)
    (hmonotone : ∀ exchange ∈ exchanges, exchange.IsMonotone engine)
    (hmoves : ∀ exchange ∈ exchanges, exchange.Moves engine input.length buffer.length) :
    exchanges.length +
        (min (engine.totalIn session) input.length +
          min (engine.totalOut session) buffer.length) ≤
      min (engine.totalIn last) input.length + min (engine.totalOut last) buffer.length := by
  induction hexchanges with
  | nil =>
      rw [List.length_nil]
      omega
  | @cons session _ _ _ left filled slice _ answer rest _ _ hbuffer _ hanswer _ ih =>
      have hlength : (filled ++ answer.slice).length = (filled ++ slice).length := by
        rw [← hanswer, List.length_append, List.length_append, engine.length_slice]
      rw [← hbuffer] at hlength
      rw [hlength] at ih
      have hrest := ih (fun exchange hmem => hmonotone exchange (List.mem_cons_of_mem _ hmem))
        (fun exchange hmem => hmoves exchange (List.mem_cons_of_mem _ hmem))
      have hgrows := hmonotone _ List.mem_cons_self
      have hmoved := hmoves _ List.mem_cons_self
      rw [Exchange.IsMonotone] at hgrows
      rw [Exchange.Moves] at hmoved
      rw [List.length_cons]
      dsimp only at hgrows hmoved
      omega

theorem drive_recorded (engine : Engine InflateSettings σ) (input : Bytes) (output steps : Nat)
    (recording : Recording σ) (buffer : Bytes) :
    drive (filling engine) input output steps ⟨recording.session, buffer⟩ =
      (drive (filling engine.recorded) input output steps ⟨recording, buffer⟩).map
        fun (progress, outcome) => (⟨progress.session.session, progress.buffer⟩, outcome) := by
  induction steps generalizing recording buffer with
  | zero => rfl
  | succ steps ih =>
      have hturn : turn (filling engine) input output ⟨recording.session, buffer⟩ =
          (⟨(turn (filling engine.recorded) input output ⟨recording, buffer⟩).1.session.session,
            (turn (filling engine.recorded) input output ⟨recording, buffer⟩).1.buffer⟩,
            (turn (filling engine.recorded) input output ⟨recording, buffer⟩).2) := rfl
      rw [drive, drive, hturn]
      generalize turn (filling engine.recorded) input output ⟨recording, buffer⟩ = turned
      rcases turned with ⟨⟨recording', buffer'⟩, outcome?⟩
      cases outcome? with
      | some outcome => rfl
      | none => exact ih recording' buffer'

theorem drive_of_le {τ : Type} {source : Source τ} {output steps more : Nat} {state : τ}
    {ending : τ × Except Error Unit}
    (hdrive : drive source input output steps state = some ending) (hle : steps ≤ more) :
    drive source input output more state = some ending := by
  induction steps generalizing more state with
  | zero => cases hdrive
  | succ steps ih =>
      cases more with
      | zero => exact absurd hle (Nat.not_succ_le_zero steps)
      | succ more =>
          rw [drive] at hdrive ⊢
          generalize turn source input output state = turned at hdrive ⊢
          rcases turned with ⟨next, outcome?⟩
          cases outcome? with
          | some outcome => exact hdrive
          | none => exact ih hdrive (Nat.le_of_succ_le_succ hle)

end Exchanges

end Inflate

/-!
## Calls
-/

section Calls

variable {σ : Type} {engine : Engine InflateSettings σ} {input buffer : Bytes} {steps : Nat}

theorem inflateWith_recorded (engine : Engine InflateSettings σ) (steps : Nat)
    (input buffer : Bytes) :
    inflateWith engine steps input buffer =
      (inflateWith engine.recorded steps input buffer).map Run.unrecorded := by
  have hmax : engine.recorded.maxLength = engine.maxLength := rfl
  have hstart : engine.recorded.start {} =
      (engine.start {}).map fun session => (⟨session, []⟩ : Recording σ) := rfl
  unfold inflateWith
  rw [hmax, hstart]
  cases SingleShot.checkLengths input.length buffer.length engine.maxLength with
  | error error => rfl
  | ok value =>
      cases engine.start {} with
      | error fault => rfl
      | ok session =>
          have hdrive := Inflate.drive_recorded engine input buffer.length steps ⟨session, []⟩
            buffer
          dsimp only [Except.map] at hdrive ⊢
          rw [hdrive, Option.map_map, Option.map_map]
          rfl

theorem inflateWith_not_started {run : Run σ Unit}
    (hrun : inflateWith engine steps input buffer = some run)
    (hsession : ∀ session, run.session? ≠ some (.ok session)) :
    run.outcome ≠ .ok () ∧ run.buffer = buffer := by
  unfold inflateWith at hrun
  split at hrun
  · rw [← Option.some.inj hrun]
    exact ⟨by simp, rfl⟩
  · split at hrun
    · rw [← Option.some.inj hrun]
      exact ⟨by simp, rfl⟩
    · rcases Option.map_eq_some_iff.mp hrun with ⟨progress, _, hmade⟩
      exact absurd (congrArg Run.session? hmade.symm) (hsession _)

theorem exchanges_of_inflateWith {run : Run (Recording σ) Unit} {recording : Recording σ}
    (hrun : inflateWith engine.recorded steps input buffer = some run)
    (hsession : run.session? = some (.ok recording)) :
    ∃ session front last, engine.start {} = .ok session ∧
      recording = ⟨last.answer.session, front ++ [last]⟩ ∧
      Inflate.Exchanges engine input session buffer (front ++ [last]) last.answer.session
        run.buffer ∧
      (∀ exchange ∈ front, exchange.verdict engine input.length buffer.length = none) ∧
      last.verdict engine input.length buffer.length = some run.outcome := by
  have hstart : engine.recorded.start {} =
      (engine.start {}).map fun session => (⟨session, []⟩ : Recording σ) := rfl
  unfold inflateWith at hrun
  rw [hstart] at hrun
  split at hrun
  · rw [← Option.some.inj hrun] at hsession
    cases hsession
  · cases hsessionStart : engine.start {} with
    | error fault =>
        rw [hsessionStart] at hrun
        rw [← Option.some.inj hrun] at hsession
        cases hsession
    | ok session =>
        rw [hsessionStart] at hrun
        rcases Option.map_eq_some_iff.mp hrun with ⟨⟨progress, outcome⟩, hdrive, hmade⟩
        subst hmade
        rcases Inflate.exchanges_of_drive hdrive with
          ⟨front, last, hlast, hexchanges, hfront, hverdict⟩
        injection hsession with hsession
        injection hsession with hsession
        exact ⟨session, front, last, rfl, hsession ▸ hlast, hexchanges, hfront, hverdict⟩

theorem inflateWith_of_le {run : Run σ Unit} {more : Nat}
    (hrun : inflateWith engine steps input buffer = some run) (hle : steps ≤ more) :
    inflateWith engine more input buffer = some run := by
  unfold inflateWith at hrun ⊢
  split at hrun
  · exact hrun
  · split at hrun
    · exact hrun
    · rcases Option.map_eq_some_iff.mp hrun with ⟨ending, hdrive, hmade⟩
      rw [Inflate.drive_of_le hdrive hle]
      exact congrArg some hmade

/-!
## How many steps a call makes
-/

/-- No step that a call may make on these buffers takes back what the totals count. -/
def Engine.IsMonotoneOn (engine : Engine InflateSettings σ) (input buffer : Bytes) : Prop :=
  ∀ session exchanges last final, engine.start {} = .ok session →
    Inflate.Exchanges engine input session buffer exchanges last final →
      ∀ exchange ∈ exchanges, exchange.IsMonotone engine

theorem Engine.IsMonotoneOn.length_le (hmonotone : engine.IsMonotoneOn input buffer)
    {session last : σ} {exchanges : List (Exchange σ)} {final : Bytes}
    (hstart : engine.start {} = .ok session)
    (hexchanges : Inflate.Exchanges engine input session buffer exchanges last final)
    (hnone : ∀ exchange ∈ exchanges,
      exchange.verdict engine input.length buffer.length = none) :
    exchanges.length ≤ input.length + buffer.length := by
  have hmoves : ∀ exchange ∈ exchanges, exchange.Moves engine input.length buffer.length :=
    fun exchange hmem => (Exchange.verdict_eq_none_iff.mp (hnone exchange hmem)).right
  have hle := hexchanges.length_add_le (hmonotone _ _ _ _ hstart hexchanges) hmoves
  omega

theorem Engine.IsMonotoneOn.length_recorded_le (hmonotone : engine.IsMonotoneOn input buffer)
    {run : Run (Recording σ) Unit} {recording : Recording σ}
    (hrun : inflateWith engine.recorded steps input buffer = some run)
    (hsession : run.session? = some (.ok recording)) :
    recording.exchanges.length ≤ input.length + buffer.length + 1 := by
  rcases exchanges_of_inflateWith hrun hsession with
    ⟨session, front, last, hstart, hrecording, hexchanges, hfront, _⟩
  rcases Inflate.Exchanges.append_iff.mp hexchanges with ⟨_, _, hfirst, _⟩
  rw [hrecording, List.length_append, List.length_singleton]
  exact Nat.succ_le_succ (hmonotone.length_le hstart hfirst hfront)

theorem Engine.IsMonotoneOn.exists_run (hmonotone : engine.IsMonotoneOn input buffer) :
    ∃ run, inflateWith engine (Inflate.maxSteps ⟨input.length, buffer.length⟩) input buffer =
      some run := by
  have hmax : engine.recorded.maxLength = engine.maxLength := rfl
  have hrecorded : engine.recorded.start {} =
      (engine.start {}).map fun session => (⟨session, []⟩ : Recording σ) := rfl
  rw [inflateWith_recorded, inflateWith, hmax, hrecorded]
  cases SingleShot.checkLengths input.length buffer.length engine.maxLength with
  | error error => exact ⟨_, rfl⟩
  | ok value =>
      cases hstart : engine.start {} with
      | error fault => exact ⟨_, rfl⟩
      | ok session =>
          dsimp only [Except.map]
          cases hdrive : Inflate.drive (Inflate.filling engine.recorded) input buffer.length
            (Inflate.maxSteps ⟨input.length, buffer.length⟩) ⟨⟨session, []⟩, buffer⟩ with
          | some ending => exact ⟨_, rfl⟩
          | none =>
              rcases Inflate.exchanges_of_drive_eq_none hdrive with
                ⟨exchanges, last, final, hexchanges, hsteps, hnone⟩
              have hle := hmonotone.length_le hstart hexchanges hnone
              rw [hsteps, Inflate.maxSteps] at hle
              exact absurd hle (Nat.not_succ_le_self _)

end Calls

end BoundedZlib
