import BoundedZlib.Proofs.Driving
import BoundedZlib.Proofs.Language

/-!
# Malformed input

What is malformed shows as soon as a decoder reads that far, and it reads ahead of its
caller to the end of a window of content.  So a session that is given all input stands
at the end of a window until it meets something malformed, and a call with room for all
windows before that one fails for it, whether or not there is room for the rest.
-/

namespace BoundedZlib

open SingleShot

namespace Decoder

/-- The content is read up to the end of some window, and nothing malformed was met. -/
structure AtWindow (session : Decoder) : Prop where
  sound : session.inflater.hasFailed = false
  full : session.inflater.content.size % window = 0

theorem initial_atWindow : initial.AtWindow where
  sound := rfl
  full := rfl

section Windows

variable {stream : Bytes} {session : Decoder} {delivered : Bytes}

/-!
## Parts of a step
-/

theorem size_read_le {limit : Nat} {input left : Bytes} {next : Decoder}
    (hread : session.read limit input = (next, left)) :
    next.inflater.content.size ≤ max limit session.inflater.content.size := by
  unfold read at hread
  generalize hrun : session.inflater.run limit (session.unread ++ Bits.ofBytes input) = run at hread
  rcases run with ⟨inflater, rest⟩
  rcases Inflater.run_leads limit hrun with ⟨used, _, hleads, _⟩
  rw [Prod.mk.injEq] at hread
  rw [← hread.left]
  exact hleads.size_le

theorem Reading.read (hreading : session.Reading stream delivered)
    (hconduct : session.conduct = .streaming) {limit : Nat} {left : Bytes} {next : Decoder}
    (hread : session.read limit (stream.drop session.totalIn) = (next, left)) :
    next.Reading stream delivered ∧ left = stream.drop next.totalIn ∧
      next.conduct = .streaming := by
  rcases read_follows hreading.follows hread with ⟨taken, hinput, hfollows, hconduct', _⟩
  have hstreaming := hconduct'.trans hconduct
  have hstream : stream = (stream.take session.totalIn ++ taken) ++ left := by
    rw [List.append_assoc, ← hinput, List.take_append_drop]
  have hin := hfollows.totalIn_eq
  have htake : stream.take next.totalIn = stream.take session.totalIn ++ taken := by
    conv => lhs; rw [hstream, hin, List.take_left]
  refine ⟨⟨?_, ?_, Or.inr (Or.inl hstreaming)⟩, ?_, hstreaming⟩
  · rw [htake]
    exact hfollows
  · rw [hin, ← htake]
    exact List.length_take_le' _ _
  · conv => rhs; rw [hstream, hin, List.drop_left]

theorem Reading.deliver (hreading : session.Reading stream delivered)
    (hconduct : session.conduct = .streaming) {room : Nat} {output : Bytes} {next : Decoder}
    (hdeliver : session.deliver room = (next, output)) :
    next.Reading stream (delivered ++ output) ∧ next.inflater = session.inflater ∧
      next.totalIn = session.totalIn ∧ next.conduct = .streaming := by
  rcases deliver_follows hreading.follows hdeliver with ⟨hfollows, _, hinflater, _, hconduct'⟩
  have hin : next.totalIn = session.totalIn := by
    rw [hfollows.totalIn_eq, ← hreading.follows.totalIn_eq]
  have hstreaming := hconduct'.trans hconduct
  refine ⟨⟨?_, ?_, Or.inr (Or.inl hstreaming)⟩, hinflater, hin, hstreaming⟩
  · rw [hin]
    exact hfollows
  · rw [hin]
    exact hreading.totalIn_le

/--
Where the stream is malformed, reading all that is left of it to the end of a window
meets that, or fills the window.
-/
theorem Reading.read_atWindow (hreading : session.Reading stream delivered)
    (hconduct : session.conduct = .streaming)
    (hmalformed : (Inflater.after (Bits.ofBytes stream)).hasFailed = true)
    {left : Bytes} {next : Decoder}
    (hread : session.read session.windowEnd (stream.drop session.totalIn) = (next, left)) :
    next.inflater.hasFailed = true ∨ next.AtWindow := by
  rcases hreading.read hconduct hread with ⟨hnext, hleft, _⟩
  rcases read_follows hreading.follows hread with ⟨_, _, _, _, hsettled, hwants⟩
  rcases hsettled with hbit | hfinished | hfailed | hfull
  · -- All bits are read, and more would have to come.
    rcases hwants hbit with ⟨hnone, hunread⟩
    have hall : next.totalIn = stream.length := by
      rw [hleft, List.drop_eq_nil_iff] at hnone
      exact Nat.le_antisymm hnext.totalIn_le hnone
    rw [hnext.after_of_wantsBit hbit hunread hall, Inflater.hasFailed_of_wantsBit hbit]
      at hmalformed
    exact Bool.noConfusion hmalformed
  · rw [hnext.after_of_isFinished hfinished, Inflater.hasFailed_of_isFinished hfinished]
      at hmalformed
    exact Bool.noConfusion hmalformed
  · exact Or.inl hfailed
  · cases hfailed : next.inflater.hasFailed with
    | true => exact Or.inl rfl
    | false =>
        have hsize := size_read_le hread
        have hlt := lt_windowEnd session
        have hend : next.inflater.content.size =
            (session.inflater.content.size / window + 1) * window := by
          unfold windowEnd at hfull hsize hlt
          omega
        exact Or.inr ⟨hfailed, by rw [hend, Nat.mul_mod_left]⟩

/-!
## Steps
-/

theorem Reading.conduct_of_atWindow (hreading : session.Reading stream delivered)
    (hat : session.AtWindow) : session.conduct = .fresh ∨ session.conduct = .streaming := by
  rcases or_assoc.mpr hreading.streams with hconduct | ⟨_, hfailed⟩
  · exact hconduct
  · rw [hat.sound] at hfailed
    exact Bool.noConfusion hfailed

theorem Reading.not_malformed_of_isComplete (hreading : session.Reading stream delivered)
    (hcomplete : session.isComplete = true) :
    ¬ (Inflater.after (Bits.ofBytes stream)).hasFailed = true := by
  rw [(hreading.of_isComplete hcomplete).left, Bool.not_eq_true]
  rw [isComplete, Bool.and_eq_true] at hcomplete
  exact Inflater.hasFailed_of_isFinished hcomplete.left

theorem Reading.not_malformed_of_starved (hreading : session.Reading stream delivered)
    {flush : Flush} (hflush : flush ≠ .finish) {room : Nat} {answer : Reply}
    (hanswer : session.step (offered stream session (stream.length + 1)) room flush = answer)
    (hinput : offered stream session (stream.length + 1) = [])
    (hwants : answer.session.inflater.wantsBit = true)
    (hunread : answer.session.unread = []) :
    ¬ (Inflater.after (Bits.ofBytes stream)).hasFailed = true := by
  rw [hreading.after_of_starved hflush (Nat.succ_pos _) hanswer hinput hwants hunread,
    Bool.not_eq_true]
  exact Inflater.hasFailed_of_wantsBit hwants

theorem Reading.windows_atWindow (count : Nat) (hreading : session.Reading stream delivered)
    (hconduct : session.conduct = .streaming) (hat : session.AtWindow)
    (hmalformed : (Inflater.after (Bits.ofBytes stream)).hasFailed = true)
    (input : Bytes) (room : Nat) {answer : Reply}
    (hanswer : windows false input count session (stream.drop session.totalIn) room = answer) :
    answer.result = .error malformed ∨ answer.session.AtWindow := by
  induction count generalizing session delivered room answer with
  | zero =>
      rw [← hanswer]
      exact Or.inr ⟨hat.sound, hat.full⟩
  | succ count ih =>
      rw [windows] at hanswer
      generalize hread : session.read session.windowEnd (stream.drop session.totalIn) = first
        at hanswer
      rcases first with ⟨next, left⟩
      rcases hreading.read hconduct hread with ⟨hnext, hleft, hstreaming⟩
      have hwindow := hreading.read_atWindow hconduct hmalformed hread
      dsimp only at hanswer
      generalize hdeliver : next.deliver room = second at hanswer
      rcases second with ⟨last, output⟩
      rcases hnext.deliver hstreaming hdeliver with ⟨hlast, hinflater, hin, hstreaming'⟩
      dsimp only at hanswer
      rw [if_neg Bool.false_ne_true] at hanswer
      rcases hwindow with hfailed | hwindow
      · have hverdict : last.verdict input left (room - output.length) =
            some (.broken, .error malformed) := by
          rw [verdict, hinflater, if_pos hfailed]
        rw [hverdict] at hanswer
        rw [← hanswer]
        exact Or.inl rfl
      · have hat' : last.AtWindow := ⟨hinflater ▸ hwindow.sound, hinflater ▸ hwindow.full⟩
        cases hverdict : last.verdict input left (room - output.length) with
        | some ending =>
            rw [hverdict] at hanswer
            rw [← hanswer]
            exact Or.inr ⟨hat'.sound, hat'.full⟩
        | none =>
            rw [hverdict, hleft, ← hin] at hanswer
            generalize hrest : windows false input count last (stream.drop last.totalIn)
              (room - output.length) = rest at hanswer
            have hlater := ih hlast hstreaming' hat' (room - output.length) hrest
            rw [← hanswer]
            exact hlater

theorem Reading.step_atWindow (hreading : session.Reading stream delivered)
    (hat : session.AtWindow)
    (hmalformed : (Inflater.after (Bits.ofBytes stream)).hasFailed = true) {flush : Flush}
    (hflush : flush ≠ .finish) (room : Nat) {answer : Reply}
    (hanswer : session.step (offered stream session (stream.length + 1)) room flush = answer) :
    answer.result = .error malformed ∨ answer.session.AtWindow := by
  rcases or_assoc.mpr hreading.streams with hconduct | ⟨_, hfailed⟩
  · have hoffered : offered stream session (stream.length + 1) =
        stream.drop session.totalIn := by
      rw [offered, List.take_of_length_le]
      rw [List.length_drop]
      omega
    have hreading' : Reading stream { session with conduct := .streaming } delivered :=
      ⟨hreading.follows.with_conduct .streaming, hreading.totalIn_le, Or.inr (Or.inl rfl)⟩
    have hat' : AtWindow { session with conduct := .streaming } := ⟨hat.sound, hat.full⟩
    rw [step_eq_resume hconduct hflush, hoffered, resume] at hanswer
    split at hanswer
    · exact hreading'.windows_atWindow _ rfl hat' hmalformed _ room hanswer
    · rw [← hanswer]
      exact Or.inr ⟨hat.sound, hat.full⟩
  · rw [hat.sound] at hfailed
    exact Bool.noConfusion hfailed

/--
Where the stream is malformed, a step that is offered all that is left of it fails for
that, or it moves and stands at the end of a window; it may have no room if the windows
in front of the malformed element are delivered.
-/
theorem Reading.step_malformed (hreading : session.Reading stream delivered)
    (hat : session.AtWindow)
    (hmalformed : (Inflater.after (Bits.ofBytes stream)).hasFailed = true) {flush : Flush}
    (hflush : flush ≠ .finish) {room : Nat}
    (hroom : 0 < room ∨
      32768 * ((Inflater.after (Bits.ofBytes stream)).content.size / 32768) ≤ session.totalOut)
    {answer : Reply}
    (hanswer : session.step (offered stream session (stream.length + 1)) room flush = answer) :
    answer.result = .error malformed ∨
      answer.result = .ok .ok ∧ answer.session.AtWindow ∧
        session.totalIn + session.totalOut < answer.session.totalIn + answer.session.totalOut := by
  rcases hreading.step hflush _ room hanswer with ⟨hnext, hanswers, _, hin⟩
  rcases hreading.step_atWindow hat hmalformed hflush room hanswer with hfault | hat'
  · exact Or.inl hfault
  · have htotal := hnext.follows.totalOut_eq
    rw [List.length_append, ← hreading.follows.totalOut_eq] at htotal
    cases hresult : answer.result with
    | error fault =>
        rw [(hanswers.fault fault hresult).left]
        exact Or.inl rfl
    | ok status =>
        have hstatus : status = .ok := by
          cases status with
          | streamEnd =>
              exact absurd hmalformed
                (hnext.not_malformed_of_isComplete (hanswers.complete hresult))
          | stalled =>
              rcases hanswers.stalled hresult with ⟨hinput, hwants, hunread⟩
              exact absurd hmalformed
                (hreading.not_malformed_of_starved hflush hanswer hinput hwants hunread)
          | ok => rfl
        refine Or.inr ⟨congrArg Except.ok hstatus, hat', ?_⟩
        cases step_moves hreading.follows (hreading.conduct_of_atWindow hat) hflush _ room
          hanswer with
        | complete hend =>
            exact absurd hmalformed (hnext.not_malformed_of_isComplete (hanswers.complete hend))
        | failed hfailed =>
            rw [hat'.sound] at hfailed
            exact Bool.noConfusion hfailed
        | starved hinput hwants hunread _ =>
            exact absurd hmalformed
              (hreading.not_malformed_of_starved hflush hanswer hinput hwants hunread)
        | consumed hconsumed => omega
        | delivered hdelivered => omega
        | full hnone hwaiting =>
            -- What waits ends with a window in front of the malformed element.
            have hle : answer.session.inflater.content.size ≤
                (Inflater.after (Bits.ofBytes stream)).content.size :=
              hnext.content_prefix.length_le
            have hfull : answer.session.inflater.content.size % 32768 = 0 := hat'.full
            rw [waiting] at hwaiting
            omega

/-!
## Sessions that meet something malformed
-/

/-- Some session on the stream fails, and has decoded so many bytes of content by then. -/
def FailsAfter (stream : Bytes) (count : Nat) : Prop :=
  ∃ offers, (∀ offer ∈ offers, offer.flush ≠ .finish) ∧
    (∃ fault, (course stream offers).result? = some (.error fault)) ∧
    (course stream offers).session.inflater.content.size = count

theorem exists_fault (hmalformed : (Inflater.after (Bits.ofBytes stream)).hasFailed = true)
    (steps : Nat) (offers : List Offer) (hflush : ∀ offer ∈ offers, offer.flush ≠ .finish)
    (hat : (course stream offers).session.AtWindow)
    (hsteps : stream.length + (Inflater.after (Bits.ofBytes stream)).content.size <
      (course stream offers).session.totalIn + (course stream offers).session.totalOut + steps) :
    ∃ offers, (∀ offer ∈ offers, offer.flush ≠ .finish) ∧
      (course stream offers).result? = some (.error malformed) := by
  have hreading : (course stream offers).session.Reading stream
      (course stream offers).delivered := course_reading hflush
  induction steps generalizing offers with
  | zero =>
      have hin := hreading.totalIn_le
      have hout := hreading.totalOut_le
      omega
  | succ steps ih =>
      have hflush' : ∀ offer ∈ offers ++ [⟨stream.length + 1, 1, .none⟩],
          offer.flush ≠ .finish := by
        intro offer hmem
        rcases List.mem_append.mp hmem with hmem | hmem
        · exact hflush offer hmem
        · rw [List.mem_singleton.mp hmem]
          exact Flush.noConfusion
      have hnext := @course_append_singleton stream offers
        ⟨stream.length + 1, 1, .none⟩
      rcases hreading.step_malformed hat hmalformed (show Flush.none ≠ .finish by decide)
        (Or.inl Nat.one_pos) rfl with hfault | ⟨_, hat', hmoved⟩
      · refine ⟨_, hflush', ?_⟩
        rw [hnext]
        exact congrArg some hfault
      · apply ih _ hflush'
        · rw [hnext]
          exact hat'
        · rw [hnext]
          exact Nat.lt_of_lt_of_le hsteps (by simp only [Course.next]; omega)
        · exact course_reading hflush'

/-- A session fails where reading in full does, and with the same content. -/
theorem failsAfter_iff {count : Nat} :
    FailsAfter stream count ↔ (Inflater.after (Bits.ofBytes stream)).hasFailed = true ∧
      (Inflater.after (Bits.ofBytes stream)).content.size = count := by
  have hsession : ∀ offers, (∀ offer ∈ offers, offer.flush ≠ .finish) →
      ∀ fault, (course stream offers).result? = some (.error fault) →
        Inflater.after (Bits.ofBytes stream) = (course stream offers).session.inflater ∧
          (course stream offers).session.inflater.hasFailed = true := by
    intro offers hflush fault hfault
    have hfailed := ((course_answers hflush).right fault hfault).right
    have hreading : (course stream offers).session.Reading stream
        (course stream offers).delivered := course_reading hflush
    exact ⟨hreading.after_of_hasFailed hfailed, hfailed⟩
  constructor
  · intro h
    rcases h with ⟨offers, hflush, ⟨fault, hfault⟩, hcount⟩
    rcases hsession offers hflush fault hfault with ⟨hafter, hfailed⟩
    rw [hafter]
    exact ⟨hfailed, hcount⟩
  · intro h
    rcases exists_fault h.left (stream.length +
        (Inflater.after (Bits.ofBytes stream)).content.size + 1) []
        (fun _ hmem => absurd hmem List.not_mem_nil) initial_atWindow
        (Nat.lt_of_lt_of_le (Nat.lt_succ_self _) (Nat.le_add_left _ _)) with
      ⟨offers, hflush, hfault⟩
    refine ⟨offers, hflush, ⟨_, hfault⟩, ?_⟩
    rw [← (hsession offers hflush _ hfault).left]
    exact h.right

/-- A session fails exactly on input that begins with something malformed in the format. -/
theorem failsAfter_iff_malformed {count : Nat} :
    FailsAfter stream count ↔
      ∃ fault content, fault <+: Bits.ofBytes stream ∧ Format.Malformed fault content ∧
        content.length = count := by
  rw [failsAfter_iff]
  constructor
  · intro h
    rcases h with ⟨hfailed, hcount⟩
    rcases Inflater.hasFailed_iff_malformed.mp ⟨hfailed, rfl⟩ with ⟨fault, hbegins, hfault⟩
    exact ⟨fault, _, hbegins, hfault, hcount⟩
  · intro h
    rcases h with ⟨fault, content, hbegins, hfault, hcount⟩
    rcases Inflater.hasFailed_iff_malformed.mpr ⟨fault, hbegins, hfault⟩ with ⟨hfailed, hcontent⟩
    rw [← hcount, ← hcontent]
    exact ⟨hfailed, Array.length_toList.symm⟩

end Windows
end Decoder

namespace Inflate

/-!
## Calls
-/

section Deciding

variable {input : Bytes} {size : Nat} {session : Decoder} {delivered : Bytes}

def corrupted : Error :=
  .corrupted "deflate decompression error"

/--
On malformed input a call fails for that or goes on, if it has room for all windows before
the one in which the input is malformed.
-/
theorem decision_of_malformed
    (hmalformed : (Inflater.after (Bits.ofBytes input)).hasFailed = true)
    (hreading : session.Reading input delivered) (hat : session.AtWindow)
    (hroom : session.totalOut ≤ size)
    (hsize : 32768 * ((Inflater.after (Bits.ofBytes input)).content.size / 32768) ≤ size) :
    decision input size session = some (.error corrupted) ∨
      decision input size session = none ∧ (stepOf input size session).session.AtWindow := by
  rcases totals_stepOf hreading hroom with ⟨_, _, hinLe, houtLe⟩
  have hroom' : 0 < size - cursor session.totalOut size ∨
      32768 * ((Inflater.after (Bits.ofBytes input)).content.size / 32768) ≤
        session.totalOut := by
    rw [cursor]
    omega
  rcases hreading.step_malformed hat hmalformed (show Flush.partly ≠ .finish by decide) hroom'
    (show session.step _ _ .partly = stepOf input size session from rfl) with
    hfault | ⟨hresult, hat', hmoved⟩
  · rw [decision, hfault]
    exact Or.inl rfl
  · rw [decision, hresult, verdict_of_moved hmoved hinLe houtLe]
    exact Or.inr ⟨rfl, hat'⟩

end Deciding

end Inflate

theorem inflate_of_hasFailed {input : Bytes} {size : Nat}
    (hlengths : input.length ≤ 4294967295 ∧ size ≤ 4294967295)
    (hmalformed : (Inflater.after (Bits.ofBytes input)).hasFailed = true)
    (hsize : 32768 * ((Inflater.after (Bits.ofBytes input)).content.size / 32768) ≤ size) :
    inflateToSize input size = .error (.error Inflate.corrupted) ∧
      ∀ buffer : Bytes, buffer.length = size →
        inflateWith Decoder.engine (Inflate.maxSteps ⟨input.length, size⟩) input buffer =
          some (inflate input buffer) ∧
        (inflate input buffer).outcome = .error Inflate.corrupted := by
  have hkeeps : ∀ session delivered, session.Reading input delivered →
      session.totalOut ≤ size → session.AtWindow → Inflate.decision input size session = none →
        (Inflate.stepOf input size session).session.AtWindow := by
    intro session delivered hreading hroom hat hnone
    rcases Inflate.decision_of_malformed hmalformed hreading hat hroom hsize with
      hcorrupted | ⟨_, hat'⟩
    · rw [hcorrupted] at hnone
      cases hnone
    · exact hat'
  rcases inflate_runs_keeping hlengths Decoder.initial_atWindow hkeeps with
    ⟨before, given, outcome, hreading, hroom, hat, hdecision, hnew, hbuffers⟩
  rcases Inflate.decision_of_malformed hmalformed hreading hat hroom hsize with
    hcorrupted | ⟨hnone, _⟩
  · rw [hcorrupted, Option.some.injEq] at hdecision
    subst hdecision
    refine ⟨hnew, ?_⟩
    intro buffer hbuffer
    subst hbuffer
    rcases hbuffers buffer rfl with ⟨filled, hrun⟩
    rw [inflate_eq hrun]
    exact ⟨hrun, rfl⟩
  · rw [hnone] at hdecision
    cases hdecision

/--
A call on input that decoding finds malformed after so many bytes of content fails for that,
with room for all of them, for less, or for more; only of whole windows there has to be room
for those before the one in which it happens.
-/
theorem inflate_fails_on_malformed {input : Bytes} {count : Nat}
    (hlength : input.length ≤ 4294967295) (hfails : Decoder.FailsAfter input count) :
    (∀ capacity, capacity ≤ 4294967295 → 32768 * (count / 32768) ≤ capacity →
      inflateToSize input capacity =
          .error (.error (.corrupted "deflate decompression error")) ∧
        ∀ buffer : Bytes, buffer.length = capacity →
          inflateWith Decoder.engine (Inflate.maxSteps ⟨input.length, capacity⟩) input buffer =
            some (inflate input buffer) ∧
          (inflate input buffer).outcome =
            .error (.corrupted "deflate decompression error")) ∧
    (count < 32768 → ∀ capacity, capacity ≤ 4294967295 →
      inflateToSize input capacity =
          .error (.error (.corrupted "deflate decompression error")) ∧
        ∀ buffer : Bytes, buffer.length = capacity →
          (inflate input buffer).outcome =
            .error (.corrupted "deflate decompression error")) := by
  rcases Decoder.failsAfter_iff.mp hfails with ⟨hmalformed, hcount⟩
  subst hcount
  constructor
  · intro capacity hcapacity hroom
    exact inflate_of_hasFailed ⟨hlength, hcapacity⟩ hmalformed hroom
  · intro hsmall capacity hcapacity
    have hroom : 32768 * ((Inflater.after (Bits.ofBytes input)).content.size / 32768) ≤
        capacity := by
      rw [Nat.div_eq_of_lt hsmall, Nat.mul_zero]
      exact Nat.zero_le capacity
    rcases inflate_of_hasFailed ⟨hlength, hcapacity⟩ hmalformed hroom with ⟨hnew, hbuffers⟩
    exact ⟨hnew, fun buffer hbuffer => (hbuffers buffer hbuffer).right⟩

/-- A wrong checksum behind two bytes of content shows also where there is room for one, or four. -/
theorem inflate_pair_with_wrong_checksum :
    inflateToSize [0x78, 0x01, 0x01, 0x02, 0x00, 0xfd, 0xff, 0x61, 0x62, 0x01, 0x26, 0x00, 0xc5]
        1 = .error (.error (.corrupted "deflate decompression error")) ∧
      (inflate [0x78, 0x01, 0x01, 0x02, 0x00, 0xfd, 0xff, 0x61, 0x62, 0x01, 0x26, 0x00, 0xc5]
        [0xaa, 0xaa, 0xaa, 0xaa]).outcome = .error (.corrupted "deflate decompression error") := by
  have hfails : Decoder.FailsAfter
      [0x78, 0x01, 0x01, 0x02, 0x00, 0xfd, 0xff, 0x61, 0x62, 0x01, 0x26, 0x00, 0xc5] 2 := by
    rw [Decoder.failsAfter_iff]
    decide +kernel
  rcases inflate_fails_on_malformed (by decide) hfails with ⟨hroomy, hany⟩
  exact ⟨(hany (by decide) 1 (by decide)).left,
    ((hroomy 4 (by decide) (by decide)).right [0xaa, 0xaa, 0xaa, 0xaa] rfl).right⟩

end BoundedZlib
