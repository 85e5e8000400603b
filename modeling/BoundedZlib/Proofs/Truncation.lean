import BoundedZlib.Proofs.Beginnings
import BoundedZlib.Proofs.Slicing

/-!
# Input that is cut off

No part of a stream in front of its end is a stream, and none is malformed.  A call on
such a part, or on any other input that is cut off, ends when it has asked for more input
than there is; by then it has delivered all content that the input spells, as far as there
was room.
-/

namespace BoundedZlib

namespace Decoder

/-!
## What a step leaves waiting
-/

section Delivering

variable {session : Decoder} {room : Nat}

theorem waiting_deliver (session : Decoder) (room : Nat) :
    (session.deliver room).1.waiting = 0 ∨ (session.deliver room).2.length = room := by
  have hwaiting : (session.deliver room).1.waiting =
      session.inflater.content.size - (session.totalOut + min room session.waiting) := rfl
  rw [hwaiting, length_deliver]
  unfold waiting
  omega

theorem windows_delivers (input : Bytes) (count : Nat) (hwaiting : session.waiting = 0)
    (left : Bytes) (room : Nat) {answer : Reply}
    (hanswer : windows false input count session left room = answer) :
    answer.session.waiting = 0 ∨ answer.output.length = room := by
  induction count generalizing session left room answer with
  | zero =>
      rw [← hanswer]
      exact Or.inl hwaiting
  | succ count ih =>
      rw [windows] at hanswer
      generalize session.read session.windowEnd left = taken at hanswer
      rcases taken with ⟨read, others⟩
      dsimp only at hanswer
      have hdelivers := waiting_deliver read room
      have hlength := length_deliver read room
      generalize read.deliver room = delivery at hanswer hdelivers hlength
      rcases delivery with ⟨next, output⟩
      dsimp only at hanswer hdelivers hlength
      rw [if_neg Bool.false_ne_true] at hanswer
      cases hverdict : next.verdict input others (room - output.length) with
      | some ending =>
          rw [hverdict] at hanswer
          rw [← hanswer]
          exact hdelivers
      | none =>
          rw [hverdict] at hanswer
          rw [← hanswer]
          rcases verdict_none hverdict with ⟨_, _, _, _, hnone⟩
          rcases ih hnone others (room - output.length) rfl with hwaiting' | hfilled
          · exact Or.inl hwaiting'
          · apply Or.inr
            rw [List.length_append, hfilled]
            omega

theorem step_delivers {flush : Flush}
    (hconduct : session.conduct = .fresh ∨ session.conduct = .streaming)
    (hflush : flush ≠ .finish) (input : Bytes) {answer : Reply}
    (hanswer : session.step input room flush = answer) :
    answer.session.waiting = 0 ∨ answer.output.length = room := by
  rw [step_eq_resume hconduct hflush, resume] at hanswer
  split at hanswer
  · rename_i hwaiting
    exact windows_delivers input _ hwaiting input room hanswer
  · rw [← hanswer]
    exact waiting_deliver { session with conduct := .streaming } room

end Delivering

end Decoder

namespace Inflate

/-!
## Steps on a part of a stream
-/

section Deciding

variable {input : Bytes} {size : Nat} {session : Decoder} {delivered : Bytes}

theorem totals_of_starved
    (hsound : (Inflater.after (Bits.ofBytes input)).hasFailed = false)
    (hreading : session.Reading input delivered)
    (hroom : session.totalOut ≤ size)
    (hsize : (Inflater.after (Bits.ofBytes input)).content.size ≤ size)
    (hinput : Decoder.offered input session (input.length + 1) = [])
    (hwants : (stepOf input size session).session.inflater.wantsBit = true)
    (hunread : (stepOf input size session).session.unread = []) :
    (stepOf input size session).session.totalIn = input.length ∧
      (stepOf input size session).session.totalOut =
        (Inflater.after (Bits.ofBytes input)).content.size := by
  have hflush : Flush.partly ≠ .finish := by decide
  rcases totals_stepOf hreading hroom with ⟨hin, hout, hinLe, houtLe⟩
  have hnext := (stepOf_reading size hreading).left
  constructor
  · exact Nat.le_antisymm hinLe
      (Nat.le_trans (Nat.le_of_eq (hreading.totalIn_of_offered (Nat.succ_pos _) hinput).symm) hin)
  · have hafter := hreading.after_of_starved hflush (Nat.succ_pos _) rfl hinput hwants hunread
    rcases Decoder.step_delivers (hreading.conduct_of_sound hsound) hflush _
      (show session.step _ _ .partly = stepOf input size session from rfl) with
      hwaiting | hfilled
    · rw [hnext.follows.totalOut_of_waiting hwaiting, hafter]
      rfl
    · -- The room is filled up, so there was just enough of it.
      have htotal := hnext.follows.totalOut_eq
      have hall := hnext.totalOut_le
      rw [List.length_append, ← hreading.follows.totalOut_eq, hfilled, SingleShot.cursor,
        Nat.min_eq_left hroom] at htotal
      omega

theorem not_streamEnd_of_unfinished (size : Nat)
    (hunfinished : (Inflater.after (Bits.ofBytes input)).isFinished = false)
    (hreading : session.Reading input delivered) :
    (stepOf input size session).result ≠ .ok .streamEnd := by
  intro hresult
  rcases stepOf_reading size hreading with ⟨hnext, hanswers⟩
  rw [(hnext.stream_of_isComplete (hanswers.complete hresult)).left] at hunfinished
  exact Bool.noConfusion hunfinished

theorem totals_of_standstill
    (hunfinished : (Inflater.after (Bits.ofBytes input)).isFinished = false)
    (hsound : (Inflater.after (Bits.ofBytes input)).hasFailed = false)
    (hreading : session.Reading input delivered)
    (hroom : session.totalOut ≤ size)
    (hsize : (Inflater.after (Bits.ofBytes input)).content.size ≤ size)
    (hstill : ¬ session.totalIn + session.totalOut <
      (stepOf input size session).session.totalIn +
        (stepOf input size session).session.totalOut) :
    (stepOf input size session).session.totalIn = input.length ∧
      (stepOf input size session).session.totalOut =
        (Inflater.after (Bits.ofBytes input)).content.size := by
  have hflush : Flush.partly ≠ .finish := by decide
  rcases totals_stepOf hreading hroom with ⟨hin, hout, _, _⟩
  have hnext := (stepOf_reading size hreading).left
  have htotal := hnext.follows.totalOut_eq
  rw [List.length_append, ← hreading.follows.totalOut_eq] at htotal
  cases Decoder.step_moves hreading.follows (hreading.conduct_of_sound hsound) hflush _ _
    (show session.step _ _ .partly = stepOf input size session from rfl) with
  | complete hresult =>
      exact absurd hresult (not_streamEnd_of_unfinished size hunfinished hreading)
  | failed hfailed =>
      rw [hnext.after_of_hasFailed hfailed, hfailed] at hsound
      exact Bool.noConfusion hsound
  | starved hinput hwants hunread _ =>
      exact totals_of_starved hsound hreading hroom hsize hinput hwants hunread
  | consumed hconsumed => omega
  | delivered hdelivered => omega
  | full hnone hwaiting =>
      have hle : (stepOf input size session).session.inflater.content.size ≤
          (Inflater.after (Bits.ofBytes input)).content.size := hnext.content_prefix.length_le
      rw [SingleShot.cursor, Nat.min_eq_left hroom] at hnone
      rw [Decoder.waiting] at hwaiting
      omega

/--
Where the input is neither a stream nor malformed, a call ends with a session that stands
still; with room for all content, it has consumed all input and delivered all content.
-/
theorem decision_of_unfinished {outcome : Except Error Unit}
    (hunfinished : (Inflater.after (Bits.ofBytes input)).isFinished = false)
    (hsound : (Inflater.after (Bits.ofBytes input)).hasFailed = false)
    (hreading : session.Reading input delivered)
    (hroom : session.totalOut ≤ size)
    (hdecision : decision input size session = some outcome) :
    ∃ totals, outcome = .error (stallError ⟨input.length, size⟩ totals) ∧
      ((Inflater.after (Bits.ofBytes input)).content.size ≤ size →
        totals = ⟨input.length, (Inflater.after (Bits.ofBytes input)).content.size⟩) := by
  rcases totals_stepOf hreading hroom with ⟨_, _, hinLe, houtLe⟩
  have hanswers := (stepOf_reading size hreading).right
  rw [decision] at hdecision
  cases hresult : (stepOf input size session).result with
  | error fault => exact absurd hresult (stepOf_ne_error size hsound hreading fault)
  | ok status =>
      cases status with
      | streamEnd => exact absurd hresult (not_streamEnd_of_unfinished size hunfinished hreading)
      | stalled =>
          rw [hresult, verdict, Option.some.injEq] at hdecision
          refine ⟨_, hdecision.symm, ?_⟩
          intro hsize
          rcases hanswers.stalled hresult with ⟨hinput, hwants, hunread⟩
          rcases totals_of_starved hsound hreading hroom hsize hinput hwants hunread with
            ⟨hconsumed, hproduced⟩
          rw [hconsumed, hproduced]
      | ok =>
          have hstill : ¬ session.totalIn + session.totalOut <
              (stepOf input size session).session.totalIn +
                (stepOf input size session).session.totalOut := by
            intro hmoved
            rw [hresult, verdict_of_moved hmoved hinLe houtLe] at hdecision
            cases hdecision
          rw [hresult, verdict] at hdecision
          split at hdecision
          · cases hdecision
          · injection hdecision with hdecision
            refine ⟨_, hdecision.symm, ?_⟩
            intro hsize
            rcases totals_of_standstill hunfinished hsound hreading hroom hsize hstill with
              ⟨hconsumed, hproduced⟩
            rw [hconsumed, hproduced]

theorem stallError_consumed {input size produced : Nat} (hproduced : produced ≤ size) :
    stallError ⟨input, size⟩ ⟨input, produced⟩ =
      if size ≠ 0 ∧ produced = size then outputFull else .unexpectedEnd size produced := by
  unfold stallError SingleShot.cursor
  rw [Nat.min_eq_left hproduced, Nat.min_self]
  split
  · rfl
  · exact if_pos (Nat.le_refl input)

end Deciding

end Inflate

/-!
## Parts of streams
-/

/-- A part of a stream in front of its end neither ends nor is malformed. -/
theorem Format.Stream.after_part {stream content part : Bytes}
    (hstream : Format.Stream stream content) (hpart : part <+: stream) (hstrict : part ≠ stream) :
    (Inflater.after (Bits.ofBytes part)).isFinished = false ∧
      (Inflater.after (Bits.ofBytes part)).hasFailed = false ∧
      (Inflater.after (Bits.ofBytes part)).content.toList <+: content := by
  rcases hpart with ⟨rest, hrest⟩
  have hall := Inflater.after_stream hstream []
  rw [List.append_nil, ← hrest, Bits.ofBytes_append, Inflater.after_append] at hall
  refine ⟨?_, ?_, ?_⟩
  · rw [Bool.eq_false_iff]
    intro hfinished
    rcases Inflater.stream_of_isFinished hfinished with ⟨front, back, other, hfront, hother⟩
    have hended := Inflater.after_stream hother (Bits.ofBytes back)
    rw [← Bits.ofBytes_append, ← hfront] at hended
    rw [hended, Inflater.feedFully_of_isFinished rfl] at hall
    -- The end of the stream is where the end of its front part is.
    have hposition : 8 * front.length = 8 * (part ++ rest).length :=
      congrArg Inflater.position hall
    have hlength : (part ++ rest).length = front.length + back.length + rest.length := by
      rw [hfront]
      simp only [List.length_append]
    have hnone : rest = [] := List.length_eq_zero_iff.mp (by omega)
    rw [hnone, List.append_nil] at hrest
    exact hstrict hrest
  · rw [Bool.eq_false_iff]
    intro hfailed
    rw [Inflater.feedFully_of_hasFailed hfailed] at hall
    rw [hall] at hfailed
    exact Bool.noConfusion hfailed
  · have hprefix := Inflater.prefix_feedFully (Inflater.after (Bits.ofBytes part))
      (Bits.ofBytes rest)
    rw [hall] at hprefix
    exact hprefix

/--
Input that is cut off is accepted at no size, and never called corrupted.  With more room than
it spells content the call tells how much that is; where the content fills the room, the room
is full.
-/
theorem inflate_of_cut_off {input content : Bytes} {capacity : Nat}
    (hlength : input.length ≤ 4294967295) (hcapacity : capacity ≤ 4294967295)
    (hcut : Format.IsCutOff input) (hspells : Format.SpellsInAll (Bits.ofBytes input) content) :
    ∃ error, inflateToSize input capacity = .error (.error error) ∧
      (∀ buffer : Bytes, buffer.length = capacity →
        inflateWith Decoder.engine (Inflate.maxSteps ⟨input.length, capacity⟩) input buffer =
          some (inflate input buffer) ∧
        (inflate input buffer).outcome = .error error) ∧
      (∀ message, error ≠ .corrupted message) ∧
      (content.length < capacity ∨ capacity = 0 ∧ content.length = 0 →
        error = .unexpectedEnd capacity content.length) ∧
      (1 ≤ capacity → capacity = content.length →
        error = .internal .inflate "output buffer full before end of stream") := by
  rcases Inflater.isCutOff_iff.mp hcut with ⟨hunfinished, hsound⟩
  have hcontent := hspells.unique (Format.spellsInAll_after (Bits.ofBytes input))
  have hcount : (Inflater.after (Bits.ofBytes input)).content.size = content.length := by
    rw [hcontent, Array.length_toList]
  rcases inflate_decided ⟨hlength, hcapacity⟩ with
    ⟨before, given, outcome, hreading, hroom, hdecision, hnew, hbuffers⟩
  rcases Inflate.decision_of_unfinished hunfinished hsound hreading hroom hdecision with
    ⟨totals, houtcome, htotals⟩
  rw [hcount] at htotals
  subst houtcome
  refine ⟨_, hnew, hbuffers, Inflate.stallError_ne_corrupted _ _, ?_, ?_⟩
  · intro hroomy
    rw [htotals (by omega), Inflate.stallError_consumed (by omega), if_neg (by omega)]
  · intro hpos hexact
    rw [htotals (by omega), Inflate.stallError_consumed (by omega), if_pos (by omega)]
    rfl

theorem stream_of_inflate {stream content buffer : Bytes} {session : Decoder}
    (haccepted : inflateToSize stream content.length = .ok content)
    (hbuffer : buffer.length = content.length)
    (hsession : (inflate stream buffer).session? = some (.ok session))
    (hconsumed : session.totalIn = stream.length) :
    Format.Stream stream content := by
  have hlengths := lengths_of_inflateToSize haccepted
  rcases inflate_runs hlengths with ⟨before, given, outcome, hreading, _, hdecision, hnew, hruns⟩
  rw [← hbuffer] at hlengths hdecision hnew hruns haccepted
  rcases hruns buffer rfl with ⟨filled, hrun⟩
  rw [inflate_eq hrun, Option.some.injEq, Except.ok.injEq] at hsession
  rw [hnew] at haccepted
  cases outcome with
  | error error => cases haccepted
  | ok value =>
      injection haccepted with hcontent
      dsimp only at hcontent
      rcases Inflate.stepOf_reading buffer.length hreading with ⟨hnext, hanswers⟩
      have hresult := (Inflate.verdict_eq_ok.mp hdecision).left
      have hcomplete := hanswers.complete hresult
      have hstream := (hnext.stream_of_isComplete hcomplete).right
      rw [(hnext.of_isComplete hcomplete).right, hcontent, hsession, hconsumed,
        List.take_length] at hstream
      exact hstream

/--
A part of a stream in front of its end is not accepted at any size, and never called
corrupted.  With more room than the content needs, or with just as much if the part does
not spell all of it, the call tells how much the part does spell; where the part spells
all and fills the room, the room is full.
-/
theorem inflate_truncated {stream content part : Bytes} {session : Decoder} {buffer : Bytes}
    (haccepted : inflateToSize stream content.length = .ok content)
    (hbuffer : buffer.length = content.length)
    (hsession : (inflate stream buffer).session? = some (.ok session))
    (hconsumed : session.totalIn = stream.length)
    (hpart : part <+: stream) (hstrict : part ≠ stream) :
    ∃ count, IsGreatest { count | Format.Covers (Bits.ofBytes part) content count } count ∧
      ∀ capacity, capacity ≤ 4294967295 →
        ∃ error, inflateToSize part capacity = .error (.error error) ∧
          (∀ buffer : Bytes, buffer.length = capacity →
            inflateWith Decoder.engine (Inflate.maxSteps ⟨part.length, capacity⟩) part buffer =
              some (inflate part buffer) ∧
            (inflate part buffer).outcome = .error error) ∧
          (∀ message, error ≠ .corrupted message) ∧
          (content.length < capacity ∨
              capacity = content.length ∧ (count < content.length ∨ content.length = 0) →
            error = .unexpectedEnd capacity count) ∧
          (capacity = content.length → count = content.length → 1 ≤ count →
            error = .internal .inflate "output buffer full before end of stream") := by
  have hstream := stream_of_inflate haccepted hbuffer hsession hconsumed
  rcases hstream.after_part hpart hstrict with ⟨hunfinished, hsound, hprefix⟩
  have hspells := Format.spellsInAll_after (Bits.ofBytes part)
  have hcount : (Inflater.after (Bits.ofBytes part)).content.toList.length ≤ content.length :=
    hprefix.length_le
  have hlength := Nat.le_trans hpart.length_le (lengths_of_inflateToSize haccepted).left
  refine ⟨_, Format.isGreatest_covers hprefix, ?_⟩
  intro capacity hcapacity
  rcases inflate_of_cut_off hlength hcapacity (Inflater.isCutOff_iff.mpr ⟨hunfinished, hsound⟩)
    hspells with ⟨error, hnew, hbuffers, hsafe, htold, hfull⟩
  rw [Array.length_toList] at hcount htold hfull
  refine ⟨error, hnew, hbuffers, hsafe, ?_, ?_⟩
  · intro hroomy
    exact htold (by omega)
  · intro hexact hall hpos
    exact hfull (by omega) (by omega)

theorem Format.covers_stored_pair :
    Format.Covers (Bits.ofBytes [0x78, 0x01, 0x01, 0x02, 0x00, 0xfd, 0xff, 0x61, 0x62])
      [0x61, 0x62] 2 := by
  have hpadding : (List.replicate 5 false).length < 8 := by decide
  have hblock := @Format.OpenBlock.stored 16 true [] _ 2 [0x61, 0x62] hpadding (by decide)
    (by decide) (by decide)
  have hspells := Format.Spells.block Format.openStream_stored hblock
  exact ⟨by decide, _, List.prefix_rfl, hspells⟩

/--
The part of a stream in front of its checksum spells both of its bytes.  They fill a
buffer of two bytes, leave room in one of three, and do not go into one byte.
-/
theorem inflate_pair_without_checksum :
    inflateToSize [0x78, 0x01, 0x01, 0x02, 0x00, 0xfd, 0xff, 0x61, 0x62] 2 =
      .error (.error (.internal .inflate "output buffer full before end of stream")) ∧
    inflateToSize [0x78, 0x01, 0x01, 0x02, 0x00, 0xfd, 0xff, 0x61, 0x62] 3 =
      .error (.error (.unexpectedEnd 3 2)) ∧
    ∃ error, (inflate [0x78, 0x01, 0x01, 0x02, 0x00, 0xfd, 0xff, 0x61, 0x62] [0xaa]).outcome =
        .error error ∧
      ∀ message, error ≠ .corrupted message := by
  have haccepted : inflateToSize
      [0x78, 0x01, 0x01, 0x02, 0x00, 0xfd, 0xff, 0x61, 0x62, 0x01, 0x26, 0x00, 0xc4] 2 =
        .ok [0x61, 0x62] := by
    decide +kernel
  have hreleased : (inflate
      [0x78, 0x01, 0x01, 0x02, 0x00, 0xfd, 0xff, 0x61, 0x62, 0x01, 0x26, 0x00, 0xc4]
      [0xaa, 0xaa]).session?.map (Except.map Decoder.totalIn) = some (.ok 13) := by
    decide +kernel
  rcases Option.map_eq_some_iff.mp hreleased with ⟨released, hsession, htotal⟩
  cases released with
  | error fault => cases htotal
  | ok session =>
      injection htotal with htotal
      rcases @inflate_truncated _ [0x61, 0x62]
        [0x78, 0x01, 0x01, 0x02, 0x00, 0xfd, 0xff, 0x61, 0x62] session [0xaa, 0xaa]
        haccepted rfl hsession htotal (List.prefix_append _ _) (by decide) with
        ⟨count, ⟨hcovers, hgreatest⟩, hcut⟩
      have hcount : count = 2 :=
        Nat.le_antisymm hcovers.left (hgreatest Format.covers_stored_pair)
      subst hcount
      refine ⟨?_, ?_, ?_⟩
      · rcases hcut 2 (by decide) with ⟨error, hnew, _, _, _, hfull⟩
        rw [hnew, hfull rfl rfl (by decide)]
      · rcases hcut 3 (by decide) with ⟨error, hnew, _, _, hmore, _⟩
        rw [hnew, hmore (by decide)]
      · rcases hcut 1 (by decide) with ⟨error, _, hbuffers, hsound, _⟩
        exact ⟨error, (hbuffers [0xaa] rfl).right, hsound⟩

end BoundedZlib
