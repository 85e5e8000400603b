import BoundedZlib.Engine.Playback
import BoundedZlib.Proofs.Exchanges

/-!
# The last step decides

Whatever an engine answers, a call goes on only after steps that went well and moved
one of its two places, and its outcome can be told from the last step.
-/

namespace BoundedZlib

section LastStep

variable {σ : Type} {engine : Engine InflateSettings σ} {exchange : Exchange σ}
variable {input output : Nat} {outcome : Except Error Unit}

/-- Where a call stands still, the output, the input and nothing are blamed, in this order. -/
theorem stallError_eq (lengths : Inflate.Lengths) (totals : Inflate.Totals) :
    Inflate.stallError lengths totals =
      if 0 < lengths.output ∧ min totals.produced lengths.output = lengths.output then
        .internal .inflate "output buffer full before end of stream"
      else if min totals.consumed lengths.input = lengths.input then
        .unexpectedEnd lengths.output totals.produced
      else
        .internal .inflate "no progress possible" := by
  have hinput : lengths.input ≤ min totals.consumed lengths.input ↔
      min totals.consumed lengths.input = lengths.input := by
    omega
  simp only [Inflate.stallError, hinput, Nat.pos_iff_ne_zero, SingleShot.cursor,
    Inflate.outputFull, Inflate.noProgress]

namespace Exchange

theorem not_moves_of_verdict (hverdict : exchange.verdict engine input output = some outcome)
    (hresult : exchange.answer.result = .ok .ok) :
    ¬ exchange.Moves engine input output := by
  intro hmoves
  rw [verdict_eq_none_iff.mpr ⟨hresult, hmoves⟩] at hverdict
  cases hverdict

theorem outcome_of_streamEnd (hverdict : exchange.verdict engine input output = some outcome)
    (hresult : exchange.answer.result = .ok .streamEnd) :
    outcome =
      if engine.totalOut exchange.answer.session = output then .ok ()
      else .error (.unexpectedEnd output (engine.totalOut exchange.answer.session)) := by
  rw [verdict, hresult] at hverdict
  exact (Option.some.inj hverdict).symm

theorem outcome_of_standstill (hverdict : exchange.verdict engine input output = some outcome)
    (hresult : exchange.answer.result = .ok .ok ∨ exchange.answer.result = .ok .stalled) :
    outcome = .error (Inflate.stallError ⟨input, output⟩
      ⟨engine.totalIn exchange.answer.session, engine.totalOut exchange.answer.session⟩) := by
  rw [verdict] at hverdict
  rcases hresult with hresult | hresult
  · rw [hresult, Inflate.verdict] at hverdict
    split at hverdict
    · cases hverdict
    · exact (Option.some.inj hverdict).symm
  · rw [hresult] at hverdict
    exact (Option.some.inj hverdict).symm

theorem outcome_of_fault (hverdict : exchange.verdict engine input output = some outcome)
    {fault : Fault} (hresult : exchange.answer.result = .error fault) :
    outcome = .error (Inflate.stepError fault) := by
  rw [verdict, hresult] at hverdict
  exact (Option.some.inj hverdict).symm

end Exchange

end LastStep

/--
A call on any engine, on buffers that the engine can count.  If no session starts, the
fault decides.  Otherwise the steps that the engine sees are given what lies behind its
totals; all but the last went well and moved; and the outcome is told by the last.
-/
theorem inflateWith_decided_by_last_step {σ : Type} {engine : Engine InflateSettings σ}
    {steps : Nat} {input buffer : Bytes} {run : Run σ Unit}
    (hinput : input.length ≤ engine.maxLength)
    (hbuffer : buffer.length ≤ engine.maxLength)
    (hrun : inflateWith engine steps input buffer = some run) :
    (∀ fault, engine.start {} = .error fault →
      run.session? = some (.error fault) ∧ run.buffer = buffer ∧
        (fault = .memory → run.outcome = .error (.outOfMemory .inflateInit)) ∧
        (fault ≠ .memory → run.outcome = .error (.internal .inflateInit fault.message))) ∧
    ∀ session, engine.start {} = .ok session →
      ∃ front last,
        inflateWith engine.recorded steps input buffer =
          some ⟨run.outcome, run.buffer, some (.ok ⟨last.answer.session, front ++ [last]⟩)⟩ ∧
        Inflate.Exchanges engine input session buffer (front ++ [last]) last.answer.session
          run.buffer ∧
        (∀ exchange ∈ front, exchange.answer.result = .ok .ok ∧
          exchange.Moves engine input.length buffer.length) ∧
        (last.answer.result = .ok .ok → ¬ last.Moves engine input.length buffer.length) ∧
        (run.outcome = .ok () ↔ last.answer.result = .ok .streamEnd ∧
          engine.totalOut last.answer.session = buffer.length) ∧
        (last.answer.result = .ok .streamEnd →
          engine.totalOut last.answer.session ≠ buffer.length →
            run.outcome = .error (.unexpectedEnd buffer.length
              (engine.totalOut last.answer.session))) ∧
        (last.answer.result = .ok .ok ∨ last.answer.result = .ok .stalled →
          run.outcome = .error (
            if 0 < buffer.length ∧
                min (engine.totalOut last.answer.session) buffer.length = buffer.length then
              .internal .inflate "output buffer full before end of stream"
            else if min (engine.totalIn last.answer.session) input.length = input.length then
              .unexpectedEnd buffer.length (engine.totalOut last.answer.session)
            else
              .internal .inflate "no progress possible")) ∧
        (∀ message, last.answer.result = .error (.data message) →
          run.outcome = .error (.corrupted message)) ∧
        (last.answer.result = .error .memory → run.outcome = .error (.outOfMemory .inflate)) ∧
        ∀ fault, last.answer.result = .error fault → fault ≠ .memory →
          (∀ message, fault ≠ .data message) →
            run.outcome = .error (.internal .inflate fault.message) := by
  have hcheck := checkLengths_eq_ok.mpr ⟨hinput, hbuffer⟩
  constructor
  · intro fault hstart
    simp only [inflateWith, hcheck, hstart, Option.some.injEq] at hrun
    subst hrun
    refine ⟨rfl, rfl, ?_, ?_⟩
    · intro hfault
      rw [hfault]
      rfl
    · intro hfault
      cases fault with
      | memory => exact absurd rfl hfault
      | data message => rfl
      | needDictionary => rfl
      | stream message => rfl
  · intro session hstart
    rw [inflateWith_recorded, Option.map_eq_some_iff] at hrun
    rcases hrun with ⟨recorded, hrecorded, hrun⟩
    -- The call on the recorded engine started the same session, so it has a record.
    have hrecording : ∃ recording, recorded.session? = some (.ok recording) := by
      have hstart' : engine.recorded.start {} = .ok ⟨session, []⟩ :=
        congrArg (Except.map fun session => (⟨session, []⟩ : Recording σ)) hstart
      have hmax : engine.recorded.maxLength = engine.maxLength := rfl
      have hmade := hrecorded
      simp only [inflateWith, hmax, hcheck, hstart', Option.map_eq_some_iff] at hmade
      rcases hmade with ⟨progress, _, hmade⟩
      exact ⟨_, congrArg Run.session? hmade.symm⟩
    rcases hrecording with ⟨recording, hrecording⟩
    rcases exchanges_of_inflateWith hrecorded hrecording with
      ⟨first, front, last, hfirst, hlast, hexchanges, hfront, hverdict⟩
    rw [hstart] at hfirst
    injection hfirst with hfirst
    subst hfirst hlast hrun
    rcases recorded with ⟨outcome, filled, session?⟩
    refine ⟨front, last, ?_, hexchanges, ?_, last.not_moves_of_verdict hverdict,
      last.outcome_eq_ok_iff hverdict, ?_, ?_, ?_, ?_, ?_⟩
    · rw [hrecorded]
      exact congrArg (fun session? => some (Run.mk outcome filled session?)) hrecording
    · intro exchange hmem
      exact Exchange.verdict_eq_none_iff.mp (hfront exchange hmem)
    · intro hresult hother
      have houtcome := last.outcome_of_streamEnd hverdict hresult
      rw [if_neg hother] at houtcome
      exact houtcome
    · intro hresult
      rw [← stallError_eq ⟨input.length, buffer.length⟩ ⟨_, _⟩]
      exact last.outcome_of_standstill hverdict hresult
    · intro message hresult
      exact last.outcome_of_fault hverdict hresult
    · intro hresult
      exact last.outcome_of_fault hverdict hresult
    · intro fault hresult hmemory hdata
      have houtcome := last.outcome_of_fault hverdict hresult
      cases fault with
      | memory => exact absurd rfl hmemory
      | data message => exact absurd rfl (hdata message)
      | needDictionary => exact houtcome
      | stream message => exact houtcome

def overshootingScript : Script where
  totalIn := 9
  totalOut := 7
  cues :=
    [{ consume := 0, produce := 0, totalIn? := some 1, totalOut? := some 0, result := .ok .ok },
      { consume := 1, produce := 2, totalOut? := some 5, result := .ok .streamEnd }]

/--
The script is played in two steps.  The first is given nothing, since its totals are too
large; the second ends the call, which tells its total and not that of the buffer.
-/
theorem inflateWith_overshootingScript :
    ∃ run first last,
      inflateWith (Playback.engine InflateSettings overshootingScript) 2 [1, 2, 3] [0xaa, 0xaa] =
        some run ∧
      inflateWith (Playback.engine InflateSettings overshootingScript).recorded 2 [1, 2, 3]
          [0xaa, 0xaa] =
        some ⟨run.outcome, run.buffer, some (.ok ⟨last.answer.session, [first, last]⟩)⟩ ∧
      first.Moves (Playback.engine InflateSettings overshootingScript) 3 2 ∧
      run.outcome = .error (.unexpectedEnd 2 5) := by
  have hrun : ∃ run, inflateWith (Playback.engine InflateSettings overshootingScript) 2 [1, 2, 3]
      [0xaa, 0xaa] = some run := ⟨_, rfl⟩
  have hrecorded : ∃ outcome buffer session first last,
      inflateWith (Playback.engine InflateSettings overshootingScript).recorded 2 [1, 2, 3]
          [0xaa, 0xaa] =
        some ⟨outcome, buffer, some (.ok ⟨session, [first, last]⟩)⟩ ∧
      last.answer.result = .ok .streamEnd ∧ last.answer.session.totalOut = 5 :=
    ⟨_, _, _, _, _, rfl, rfl, rfl⟩
  rcases hrun with ⟨run, hrun⟩
  rcases hrecorded with ⟨_, _, _, first, last, hrecorded, hresult, htotal⟩
  rcases (inflateWith_decided_by_last_step (by decide) (by decide) hrun).right _ rfl with
    ⟨front, last', hrecorded', _, hfront, _, _, hother, _⟩
  have hsame := hrecorded'
  rw [hrecorded] at hsame
  simp only [Option.some.injEq, Run.mk.injEq, Except.ok.injEq, Recording.mk.injEq] at hsame
  rcases List.append_inj' (show [first] ++ [last] = front ++ [last'] from hsame.right.right.right)
    rfl with ⟨hfirst, hlast⟩
  injection hlast with hlast
  subst hfirst hlast
  have htotal' : (Playback.engine InflateSettings overshootingScript).totalOut
      last.answer.session = 5 := htotal
  rw [htotal'] at hother
  exact ⟨run, first, last, hrun, hrecorded', (hfront first List.mem_cons_self).right,
    hother hresult (by decide)⟩

end BoundedZlib
