import BoundedZlib.Engine.Playback
import BoundedZlib.Proofs.Lossless

/-!
# How long a call takes

A call goes on only after a step that moves one of its two places.  If the engine takes
nothing back, the places go forward only, and neither goes beyond its end; so a call ends
after one step more than there are bytes, at the latest.  The totals may start anywhere
and go beyond the input and the buffer, and the answers do not matter.
-/

namespace BoundedZlib

/--
A call ends like this, however many steps more than these it is allowed, and it makes no
more than these.
-/
structure Inflate.EndsWithin {σ : Type} (engine : Engine InflateSettings σ)
    (input buffer : Bytes) (count : Nat) (run : Run σ Unit) : Prop where
  ends : ∀ steps, count ≤ steps → inflateWith engine steps input buffer = some run
  recorded : ∃ recorded, inflateWith engine.recorded count input buffer = some recorded ∧
    recorded.unrecorded = run ∧
    ∀ recording, recorded.session? = some (.ok recording) → recording.exchanges.length ≤ count

theorem Engine.IsMonotoneOn.exists_endsWithin {σ : Type} {engine : Engine InflateSettings σ}
    {input buffer : Bytes} (hmonotone : engine.IsMonotoneOn input buffer) :
    ∃ run, Inflate.EndsWithin engine input buffer (input.length + buffer.length + 1) run := by
  rcases hmonotone.exists_run with ⟨run, hrun⟩
  have hrecorded := hrun
  rw [inflateWith_recorded, Option.map_eq_some_iff] at hrecorded
  rcases hrecorded with ⟨recorded, hrecorded, hsame⟩
  exact ⟨run, fun _ hle => inflateWith_of_le hrun hle, recorded, hrecorded, hsame,
    fun _ hsession => hmonotone.length_recorded_le hrecorded hsession⟩

/-!
## Scripts
-/

namespace Playback

/-- From these totals on, each cue tells totals that are no less than those before it. -/
def Rises : (totalIn totalOut : Nat) → List Cue → Prop
  | _, _, [] => True
  | totalIn, totalOut, cue :: rest =>
      ∃ nextIn nextOut, cue.totalIn? = some nextIn ∧ cue.totalOut? = some nextOut ∧
        totalIn ≤ nextIn ∧ totalOut ≤ nextOut ∧ Rises nextIn nextOut rest

theorem rises_step {session : Playback}
    (hrises : Rises session.totalIn session.totalOut session.cues) (input slice : Bytes)
    (flush : Flush) {answer : Step Playback} (hanswer : session.step input slice flush = answer) :
    session.totalIn ≤ answer.session.totalIn ∧ session.totalOut ≤ answer.session.totalOut ∧
      Rises answer.session.totalIn answer.session.totalOut answer.session.cues := by
  unfold step at hanswer
  cases hcues : session.cues with
  | nil =>
      rw [hcues] at hanswer hrises
      rw [← hanswer]
      exact ⟨Nat.le_refl _, Nat.le_refl _, hrises⟩
  | cons cue rest =>
      rw [hcues] at hanswer hrises
      rcases hrises with ⟨nextIn, nextOut, hin, hout, hinLe, houtLe, hrest⟩
      rw [← hanswer]
      simp only [hin, hout, Option.getD_some]
      exact ⟨hinLe, houtLe, hrest⟩

theorem isMonotone_of_rises {ρ : Type} {script : Script} (settings : ρ)
    (hrises : Rises script.totalIn script.totalOut script.cues) :
    (engine ρ script).IsMonotone settings := by
  have hreached : ∀ session, (engine ρ script).Reaches settings session →
      Rises session.totalIn session.totalOut session.cues := by
    intro session hreaches
    induction hreaches with
    | start hstart =>
        change start script = .ok _ at hstart
        unfold start at hstart
        split at hstart
        · cases hstart
        · injection hstart with hstart
          rw [← hstart]
          exact hrises
    | step _ input slice flush ih => exact (rises_step ih input slice flush rfl).right.right
  intro session hreaches input slice flush
  have hstep := rises_step (hreached session hreaches) input slice flush rfl
  exact ⟨hstep.left, hstep.right.left⟩

end Playback

/-!
## The bound
-/

/--
Every call on an engine that takes nothing back ends, after at most one step more than
there are bytes in the input and in the buffer.  The decoder is such an engine.
-/
theorem inflateWith_ends_within :
    (∀ {σ : Type} (engine : Engine InflateSettings σ) (input buffer : Bytes),
      engine.IsMonotoneOn input buffer →
        ∃ run, Inflate.EndsWithin engine input buffer (input.length + buffer.length + 1) run) ∧
    ∀ input buffer : Bytes,
      Inflate.EndsWithin Decoder.engine input buffer (input.length + buffer.length + 1)
        (inflate input buffer) := by
  constructor
  · intro σ engine input buffer hmonotone
    exact hmonotone.exists_endsWithin
  · intro input buffer
    have hmonotone := Decoder.engine_isHonest.isMonotone.on input buffer
    rcases hmonotone.exists_endsWithin with ⟨run, hends, hrecorded⟩
    rw [inflate_eq (hends _ (Nat.le_refl _))]
    exact ⟨hends, hrecorded⟩

def leapingScript : Script where
  cues :=
    [{ consume := 0, produce := 0, totalIn? := some 5, totalOut? := some 0, result := .ok .ok },
      { consume := 0, produce := 0, totalIn? := some 5, totalOut? := some 9, result := .ok .ok },
      { consume := 0, produce := 0, totalIn? := some 6, totalOut? := some 9, result := .ok .ok }]

/-- With one byte to read and one to write, the script takes all of the three steps. -/
theorem inflateWith_leapingScript :
    (∃ run, Inflate.EndsWithin (Playback.engine InflateSettings leapingScript) [1] [0xaa] 3 run) ∧
      inflateWith (Playback.engine InflateSettings leapingScript) 2 [1] [0xaa] = none := by
  have hrises : Playback.Rises leapingScript.totalIn leapingScript.totalOut leapingScript.cues :=
    ⟨5, 0, rfl, rfl, by decide, by decide, 5, 9, rfl, rfl, by decide, by decide,
      6, 9, rfl, rfl, by decide, by decide, trivial⟩
  have hmonotone := (Playback.isMonotone_of_rises ({} : InflateSettings) hrises).on [1] [0xaa]
  exact ⟨inflateWith_ends_within.left _ [1] [0xaa] hmonotone, rfl⟩

end BoundedZlib
