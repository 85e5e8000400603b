import BoundedZlib.Proofs.Beginnings
import BoundedZlib.Proofs.Lossless

/-!
# What a call leaves in the buffer

A call writes the front of the content that its input spells, as much of it as it tells,
to the front of the buffer.  Behind it the buffer is as it was.  What was decoded ahead and
not delivered never shows, and how the call ends does not depend on what the buffer held.
-/

namespace BoundedZlib

open SingleShot

namespace Format

/-- All that the bits spell, up to the end of an element, is this content. -/
structure SpellsInAll (bits : List Bool) (content : Bytes) : Prop where
  spelled : ∃ front, front <+: bits ∧ Spells front content
  all : ∀ front part, front <+: bits → Spells front part → part <+: content

theorem spellsInAll_after (bits : List Bool) :
    SpellsInAll bits (Inflater.after bits).content.toList where
  spelled := exists_spells bits
  all := by
    intro front part hfront hspells
    rcases hfront with ⟨back, hbits⟩
    rw [← hbits, Inflater.after_append, ← hspells.content_after]
    exact Inflater.prefix_feedFully _ back

theorem SpellsInAll.unique {bits : List Bool} {content other : Bytes}
    (hcontent : SpellsInAll bits content) (hother : SpellsInAll bits other) :
    content = other := by
  rcases hcontent.spelled with ⟨front, hfront, hspells⟩
  rcases hother.spelled with ⟨front', hfront', hspells'⟩
  have hle := hother.all front content hfront hspells
  exact hle.eq_of_length_le (hcontent.all front' other hfront' hspells').length_le

end Format

namespace Inflate

/-!
## What the steps of a call write
-/

theorem Exchanges.reading {input buffer final delivered : Bytes} {session last : Decoder}
    {exchanges : List (Exchange Decoder)}
    (hexchanges : Exchanges Decoder.engine input session buffer exchanges last final)
    (hreading : session.Reading input delivered) :
    last.Reading input (delivered ++ exchanges.flatMap (Exchange.written Decoder.engine)) := by
  induction hexchanges generalizing delivered with
  | nil =>
      rw [List.flatMap_nil, List.append_nil]
      exact hreading
  | @cons session _ _ used left _ slice _ answer rest hinput hused _ _ hanswer _ ih =>
      have hleft : left = Decoder.offered input session (input.length + 1) := by
        have hin : used.length = session.totalIn :=
          hused.trans (Nat.min_eq_left hreading.totalIn_le)
        rw [Decoder.offered, ← hin]
        rw [List.take_of_length_le (by rw [List.length_drop]; omega)]
        conv => rhs; rw [hinput, List.drop_left]
      rcases hreading.step (show Flush.partly ≠ .finish by decide) (input.length + 1)
        slice.length rfl with ⟨hnext, _, hroom, _⟩
      rw [← hleft] at hnext hroom
      have hout := hnext.follows.totalOut_eq
      rw [List.length_append, ← hreading.follows.totalOut_eq] at hout
      have hwritten : Exchange.written Decoder.engine ⟨session, left, slice, .partly, answer⟩ =
          (session.step left slice.length .partly).output := by
        have hslice : answer.slice = (session.step left slice.length .partly).output ++
            slice.drop (session.step left slice.length .partly).output.length := by
          rw [← hanswer]
          exact congrArg (· ++ _) (List.take_of_length_le hroom)
        have htotal : Decoder.engine.totalOut answer.session - Decoder.engine.totalOut session =
            (session.step left slice.length .partly).output.length := by
          rw [← hanswer]
          exact Nat.sub_eq_of_eq_add' hout
        rw [Exchange.written, htotal, hslice, List.take_left]
      rw [List.flatMap_cons, hwritten, ← List.append_assoc]
      rw [← hanswer] at ih
      exact ih hnext

/-- A call on a decoder leaves in front what its session delivered, and behind it what was there. -/
theorem buffer_of_session {steps : Nat} {input buffer filled : Bytes}
    {outcome : Except Error Unit} {last : Decoder}
    (hrun : inflateWith Decoder.engine steps input buffer =
      some ⟨outcome, filled, some (.ok last)⟩) :
    ∃ delivered, last.Reading input delivered ∧
      filled = delivered ++ buffer.drop delivered.length := by
  rw [inflateWith_recorded, Option.map_eq_some_iff] at hrun
  rcases hrun with ⟨recorded, hrecorded, hsame⟩
  injection hsame with _ hfilled hsession
  rcases Option.map_eq_some_iff.mp hsession with ⟨started, hstarted, hlast⟩
  cases started with
  | error fault => cases hlast
  | ok recording =>
      injection hlast with hlast
      rcases exchanges_of_inflateWith hrecorded hstarted with
        ⟨session, front, exchange, hstart, hrecording, hexchanges, _, _⟩
      have hinitial : session = Decoder.initial := Except.ok.inj hstart.symm
      rw [hrecording] at hlast
      change exchange.answer.session = last at hlast
      rw [hfilled, hlast] at hexchanges
      have hbalanced := hexchanges.balanced Decoder.engine_isHonest (.start hstart)
        (balanced_start Decoder.engine_isHonest hstart input buffer)
      rw [hinitial] at hexchanges
      have hreading := hexchanges.reading (Decoder.initial_reading input)
      rw [List.nil_append] at hbalanced hreading
      refine ⟨_, hreading, ?_⟩
      rw [← hreading.follows.totalOut_eq]
      rw [hbalanced.written_eq]
      exact (List.take_append_drop _ filled).symm.trans (congrArg (_ ++ ·) hbalanced.kept)

/-!
## What an outcome tells
-/

/-- What the outcome of a call tells about how many bytes it wrote to a buffer of this size. -/
structure Tells (size : Nat) (outcome : Except Error Unit) (count : Nat) : Prop where
  whole : outcome = .ok () → count = size
  full : outcome = .error (.internal .inflate "output buffer full before end of stream") →
    count = size
  ended : ∀ expected produced, outcome = .error (.unexpectedEnd expected produced) →
    expected = size ∧ produced = count
  refused : ∀ length limit, outcome = .error (.bufferTooLarge length limit) → count = 0

theorem tells_ok {size count : Nat} (hall : count = size) : Tells size (.ok ()) count where
  whole _ := hall
  full := by
    intro houtcome
    cases houtcome
  ended := by
    intro expected produced houtcome
    cases houtcome
  refused := by
    intro length limit houtcome
    cases houtcome

theorem tells_error {size count : Nat} {error : Error}
    (hfull : error = .internal .inflate "output buffer full before end of stream" → count = size)
    (hended : ∀ expected produced, error = .unexpectedEnd expected produced →
      expected = size ∧ produced = count)
    (hrefused : ∀ length limit, error = .bufferTooLarge length limit → count = 0) :
    Tells size (.error error) count where
  whole := by
    intro houtcome
    cases houtcome
  full houtcome := hfull (Except.error.inj houtcome)
  ended expected produced houtcome := hended expected produced (Except.error.inj houtcome)
  refused length limit houtcome := hrefused length limit (Except.error.inj houtcome)

theorem tells_unexpectedEnd (size count : Nat) :
    Tells size (.error (.unexpectedEnd size count)) count := by
  apply tells_error
  · intro herror
    cases herror
  · intro expected produced herror
    injection herror with hexpected hproduced
    exact ⟨hexpected.symm, hproduced.symm⟩
  · intro length limit herror
    cases herror

theorem tells_refused (size length limit : Nat) :
    Tells size (.error (.bufferTooLarge length limit)) 0 := by
  apply tells_error
  · intro herror
    cases herror
  · intro expected produced herror
    cases herror
  · intro _ _ _
    rfl

theorem tells_internal {size count : Nat} {message : String}
    (hfull : message = "output buffer full before end of stream" → count = size) :
    Tells size (.error (.internal .inflate message)) count := by
  apply tells_error
  · intro herror
    injection herror with _ hmessage
    exact hfull hmessage
  · intro expected produced herror
    cases herror
  · intro length limit herror
    cases herror

theorem tells_corrupted (size count : Nat) (message : String) :
    Tells size (.error (.corrupted message)) count := by
  apply tells_error
  · intro herror
    cases herror
  · intro expected produced herror
    cases herror
  · intro length limit herror
    cases herror

theorem tells_stallError {input size consumed produced : Nat} (hproduced : produced ≤ size) :
    Tells size (.error (stallError ⟨input, size⟩ ⟨consumed, produced⟩)) produced := by
  unfold stallError
  split
  · rename_i hfull
    rw [cursor, Nat.min_eq_left hproduced] at hfull
    exact tells_internal fun _ => hfull.right
  · split
    · exact tells_unexpectedEnd size produced
    · exact tells_internal fun hmessage => absurd hmessage (by decide)

section Deciding

variable {input : Bytes} {size : Nat} {session : Decoder} {delivered : Bytes}

theorem tells_of_decision {outcome : Except Error Unit}
    (hreading : session.Reading input delivered) (hroom : session.totalOut ≤ size)
    (hdecision : decision input size session = some outcome) :
    Tells size outcome (stepOf input size session).session.totalOut := by
  have hproduced := (totals_stepOf hreading hroom).right.right.right
  have hanswers := (stepOf_reading size hreading).right
  rw [decision] at hdecision
  cases hresult : (stepOf input size session).result with
  | error fault =>
      rw [hresult, (hanswers.fault fault hresult).left, verdict, Option.some.injEq] at hdecision
      rw [← hdecision]
      exact tells_corrupted size _ _
  | ok status =>
      rw [hresult] at hdecision
      cases status with
      | streamEnd =>
          rw [verdict, Option.some.injEq] at hdecision
          rw [← hdecision]
          split
          · rename_i hall
            exact tells_ok hall
          · exact tells_unexpectedEnd size _
      | stalled =>
          rw [verdict, Option.some.injEq] at hdecision
          rw [← hdecision]
          exact tells_stallError hproduced
      | ok =>
          rw [verdict] at hdecision
          split at hdecision
          · cases hdecision
          · rw [Option.some.injEq] at hdecision
            rw [← hdecision]
            exact tells_stallError hproduced

end Deciding

end Inflate

theorem checkLengths_eq_error {input output limit : Nat} {error : Error}
    (hcheck : checkLengths input output limit = .error error) :
    ∃ length, error = .bufferTooLarge length limit := by
  unfold checkLengths checkLength at hcheck
  by_cases hinput : input ≤ limit
  · rw [if_pos hinput] at hcheck
    by_cases houtput : output ≤ limit
    · rw [if_pos houtput] at hcheck
      cases hcheck
    · rw [if_neg houtput] at hcheck
      exact ⟨output, Except.error.inj hcheck.symm⟩
  · rw [if_neg hinput] at hcheck
    exact ⟨input, Except.error.inj hcheck.symm⟩

/--
For buffers of one size a call ends the same way, whatever they hold, and it replaces the
same front of them by the front of all that its input spells.  How long this front is,
the outcome tells.
-/
theorem inflate_fills_front (input : Bytes) (size : Nat) :
    ∃ content outcome count, Format.SpellsInAll (Bits.ofBytes input) content ∧
      count ≤ content.length ∧ count ≤ size ∧ Inflate.Tells size outcome count ∧
      ∀ buffer : Bytes, buffer.length = size →
        inflateWith Decoder.engine (Inflate.maxSteps ⟨input.length, size⟩) input buffer =
          some (inflate input buffer) ∧
        (inflate input buffer).outcome = outcome ∧
        (inflate input buffer).buffer = content.take count ++ buffer.drop count := by
  have hspells := Format.spellsInAll_after (Bits.ofBytes input)
  cases hcheck : checkLengths input.length size 4294967295 with
  | error error =>
      rcases checkLengths_eq_error hcheck with ⟨length, herror⟩
      subst herror
      refine ⟨_, _, 0, hspells, Nat.zero_le _, Nat.zero_le _,
        Inflate.tells_refused size length 4294967295, ?_⟩
      intro buffer hbuffer
      subst hbuffer
      have hrun : inflateWith Decoder.engine (Inflate.maxSteps ⟨input.length, buffer.length⟩)
          input buffer = some ⟨.error (.bufferTooLarge length 4294967295), buffer, none⟩ := by
        rw [inflateWith, show Decoder.engine.maxLength = 4294967295 from rfl, hcheck]
      rw [inflate_eq hrun]
      exact ⟨hrun, rfl, rfl⟩
  | ok value =>
      rcases inflate_runs (checkLengths_eq_ok.mp hcheck) with
        ⟨before, given, outcome, hreading, hroom, hdecision, _, hruns⟩
      have hnext := (Inflate.stepOf_reading size hreading).left
      refine ⟨_, outcome, (Inflate.stepOf input size before).session.totalOut, hspells,
        hnext.totalOut_le, (Inflate.totals_stepOf hreading hroom).right.right.right,
        Inflate.tells_of_decision hreading hroom hdecision, ?_⟩
      intro buffer hbuffer
      subst hbuffer
      rcases hruns buffer rfl with ⟨filled, hrun⟩
      rw [inflate_eq hrun]
      rcases Inflate.buffer_of_session hrun with ⟨delivered, hlast, hfilled⟩
      refine ⟨hrun, rfl, ?_⟩
      rw [hlast.follows.totalOut_eq, ← List.prefix_iff_eq_take.mp hlast.delivered_prefix]
      exact hfilled

/-- A stream cut behind the first of its two bytes changes the first byte of either buffer. -/
theorem inflate_cut_pair_fills_front :
    ∃ outcome, Inflate.Tells 2 outcome 1 ∧
      ∀ buffer ∈ [[0xaa, 0xbb], [0xcc, 0xdd]],
        (inflate [0x78, 0x01, 0x01, 0x02, 0x00, 0xfd, 0xff, 0x61] buffer).outcome = outcome ∧
        (inflate [0x78, 0x01, 0x01, 0x02, 0x00, 0xfd, 0xff, 0x61] buffer).buffer =
          0x61 :: buffer.drop 1 := by
  have hoverwritten : (inflate [0x78, 0x01, 0x01, 0x02, 0x00, 0xfd, 0xff, 0x61]
      [0xaa, 0xbb]).outcome = .error (.unexpectedEnd 2 1) := by
    decide +kernel
  have hafter : (Inflater.after (Bits.ofBytes
      [0x78, 0x01, 0x01, 0x02, 0x00, 0xfd, 0xff, 0x61])).content.toList = [0x61] := by
    decide +kernel
  have hspelled := Format.spellsInAll_after
    (Bits.ofBytes [0x78, 0x01, 0x01, 0x02, 0x00, 0xfd, 0xff, 0x61])
  rw [hafter] at hspelled
  rcases inflate_fills_front [0x78, 0x01, 0x01, 0x02, 0x00, 0xfd, 0xff, 0x61] 2 with
    ⟨content, outcome, count, hspells, _, _, htells, hbuffers⟩
  have hcontent := hspells.unique hspelled
  have hcount : 1 = count := by
    rw [(hbuffers [0xaa, 0xbb] rfl).right.left] at hoverwritten
    exact (htells.ended 2 1 hoverwritten).right
  subst hcontent hcount
  refine ⟨outcome, htells, ?_⟩
  intro buffer hmem
  have hlength : buffer.length = 2 := by
    simp only [List.mem_cons, List.not_mem_nil, or_false] at hmem
    rcases hmem with rfl | rfl
    · rfl
    · rfl
  exact (hbuffers buffer hlength).right

end BoundedZlib
