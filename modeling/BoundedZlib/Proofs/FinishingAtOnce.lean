import BoundedZlib.Proofs.BufferContents
import BoundedZlib.Proofs.Capacity
import BoundedZlib.Proofs.Slicing
import BoundedZlib.Proofs.WrittenReferences

/-!
# Finishing with the first step

A first step that asks to finish writes content straight into the caller's room, where any
other session reads ahead and delivers piece by piece.  Both come to the same end, with the
same content and the same totals, except that the first refuses copies from before the start.
-/

namespace BoundedZlib
namespace Decoder

/-!
## Direct answers
-/

section Direct

variable {stream : Bytes} {room : Nat} {rest : List Bool} {last : Inflater} {answer : Reply}

theorem direct_read {session decoded : Decoder} {input left : Bytes}
    (hread : read room { session with inflater := .initial true } input = (decoded, left))
    (hanswer : direct session input room = answer) :
    (answer.result = .ok .streamEnd ↔ decoded.inflater.isFinished = true) ∧
      answer.output = (decoded.deliver room).2 ∧
      answer.session.totalIn = decoded.totalIn ∧
      answer.session.totalOut = decoded.totalOut + min room decoded.waiting := by
  have hinflater : (decoded.deliver room).1.inflater = decoded.inflater := rfl
  rw [direct, hread] at hanswer
  dsimp only at hanswer
  rw [hinflater] at hanswer
  rw [← hanswer]
  split
  · rename_i hfailed
    refine ⟨⟨?_, ?_⟩, rfl, rfl, rfl⟩
    · intro hend
      cases hend
    · intro hfinished
      rw [Inflater.hasFailed_of_isFinished hfinished] at hfailed
      exact Bool.noConfusion hfailed
  · split
    · rename_i hfinished
      exact ⟨⟨fun _ => hfinished, fun _ => rfl⟩, rfl, rfl, rfl⟩
    · rename_i hfinished
      have hstalled : (.ok .stalled : Except Fault Status) = .ok .streamEnd ↔
          decoded.inflater.isFinished = true := by
        constructor
        · intro hend
          cases hend
        · exact fun h => absurd h hfinished
      split
      · exact ⟨hstalled, rfl, rfl, rfl⟩
      · exact ⟨hstalled, rfl, rfl, rfl⟩

theorem step_finish_direct
    (hrun : (Inflater.initial true).run room (Bits.ofBytes stream) = (last, rest))
    (hanswer : initial.step stream room .finish = answer) :
    (answer.result = .ok .streamEnd ↔ last.isFinished = true) ∧
      answer.session.totalIn = stream.length - rest.length / 8 ∧
      answer.output = last.content.toList.take room ∧
      answer.session.totalOut = answer.output.length := by
  have hunread : initial.unread ++ Bits.ofBytes stream = Bits.ofBytes stream := rfl
  have hread : read room { initial with inflater := .initial true } stream =
      (⟨last, rest.take (rest.length % 8), 0 + (stream.length - rest.length / 8), 0, .fresh⟩,
        stream.drop (stream.length - rest.length / 8)) := by
    rw [read, hunread, hrun]
    rfl
  rcases direct_read hread hanswer with ⟨hresult, houtput, hin, hout⟩
  refine ⟨hresult, hin.trans (Nat.zero_add _), ?_, ?_⟩
  · rw [houtput, deliver]
    simp [waiting, Array.toList_extract, List.extract_eq_take_drop]
  · rw [houtput, length_deliver, hout, Nat.zero_add]

/--
Such a step ends where the bytes lead to the end of a stream for which there is room, and
that stays within its content.
-/
theorem step_finish_iff (hanswer : initial.step stream room .finish = answer) :
    answer.result = .ok .streamEnd ↔
      (Inflater.initial false).StaysWithin (Bits.ofBytes stream) ∧
        (Inflater.after (Bits.ofBytes stream)).isFinished = true ∧
        (Inflater.after (Bits.ofBytes stream)).content.size ≤ room := by
  generalize hrun : (Inflater.initial true).run room (Bits.ofBytes stream) = run
  rcases run with ⟨last, rest⟩
  rw [(step_finish_direct hrun hanswer).left]
  constructor
  · intro hfinished
    rcases Inflater.run_finished hrun hfinished with ⟨hwithin, hlast, hsize⟩
    rw [hlast, Inflater.isFinished_strictly] at hfinished
    exact ⟨hwithin, hfinished, hsize⟩
  · intro h
    rcases h with ⟨hwithin, hfinished, hsize⟩
    exact Inflater.run_finishes hrun hwithin hfinished hsize

theorem step_finish_totals (hanswer : initial.step stream room .finish = answer)
    (hend : answer.result = .ok .streamEnd) :
    answer.output = (Inflater.after (Bits.ofBytes stream)).content.toList ∧
      8 * answer.session.totalIn = (Inflater.after (Bits.ofBytes stream)).position ∧
      answer.session.totalOut = answer.output.length := by
  generalize hrun : (Inflater.initial true).run room (Bits.ofBytes stream) = run
  rcases run with ⟨last, rest⟩
  rcases step_finish_direct hrun hanswer with ⟨hresult, hin, houtput, hout⟩
  have hfinished := hresult.mp hend
  rcases Inflater.run_finished hrun hfinished with ⟨_, hlast, hsize⟩
  rcases Inflater.run_leads room hrun with ⟨used, hbits, hleads, _, _⟩
  have hposition := hleads.position_eq
  rw [hlast] at hposition hfinished houtput
  have hafter : (Inflater.after (Bits.ofBytes stream)).position = used.length :=
    hposition.trans (Nat.zero_add _)
  refine ⟨?_, ?_, hout⟩
  · rw [houtput]
    exact List.take_of_length_le hsize
  · rcases Inflater.stream_of_isFinished hfinished with ⟨front, back, content, hstream, hfront⟩
    have hended := Inflater.after_stream hfront (Bits.ofBytes back)
    rw [← Bits.ofBytes_append, ← hstream] at hended
    have hlength := congrArg List.length hbits
    rw [Bits.length_ofBytes, List.length_append, ← hafter, hended, Inflater.ended] at hlength
    rw [hended, Inflater.ended, hin]
    have hle := congrArg List.length hstream
    rw [List.length_append] at hle
    dsimp only at hlength ⊢
    omega

end Direct

/-!
## Sessions that go piece by piece
-/

/--
Sessions on these bytes that never ask to finish, and calls, end as this answer does: once
they have ended they have told the end, with the same content and the same totals, and they
do end if their steps are offered something.
-/
structure EndsAs (stream : Bytes) (answer : Reply) : Prop where
  ended : ∀ offers : List Offer, (∀ offer ∈ offers, offer.flush ≠ .finish) →
    (course stream offers).HasEnded →
      (course stream offers).result? = some (.ok .streamEnd) ∧
        (course stream offers).delivered = answer.output ∧
        (course stream offers).session.totalIn = answer.session.totalIn ∧
        (course stream offers).session.totalOut = answer.session.totalOut
  reached : ∀ offers : List Offer, (∀ offer ∈ offers, offer.flush ≠ .finish) →
    (∀ offer ∈ offers, offer.Productive) →
      stream.length + answer.output.length + 1 ≤ offers.length →
        ∃ front back, offers = front ++ back ∧
          (course stream front).result? = some (.ok .streamEnd)
  inflated : ∀ buffer : Bytes, stream.length ≤ 4294967295 → buffer.length ≤ 4294967295 →
    buffer.length = answer.output.length →
      ∃ last, inflate stream buffer = ⟨.ok (), answer.output, some (.ok last)⟩ ∧
        last.totalIn = answer.session.totalIn ∧ last.totalOut = answer.session.totalOut

section Agreement

variable {stream : Bytes} {room : Nat} {answer : Reply}

theorem totals_of_streamEnd (hanswer : initial.step stream room .finish = answer)
    (hend : answer.result = .ok .streamEnd) {offers : List Offer}
    (hflush : ∀ offer ∈ offers, offer.flush ≠ .finish)
    (hcourse : (course stream offers).result? = some (.ok .streamEnd)) :
    (course stream offers).delivered = answer.output ∧
      (course stream offers).session.totalIn = answer.session.totalIn ∧
      (course stream offers).session.totalOut = answer.session.totalOut := by
  rcases step_finish_totals hanswer hend with ⟨houtput, hin, hout⟩
  rcases of_streamEnd hflush hcourse with ⟨_, hdelivered, hconsumed, _⟩
  have hreading : (course stream offers).session.Reading stream
      (course stream offers).delivered := course_reading hflush
  have hsame := hdelivered.trans houtput.symm
  refine ⟨hsame, by omega, ?_⟩
  rw [hreading.follows.totalOut_eq, hsame, hout]

theorem inflate_of_streamEnd (hanswer : initial.step stream room .finish = answer)
    (hend : answer.result = .ok .streamEnd) {buffer : Bytes}
    (hlengths : stream.length ≤ 4294967295 ∧ buffer.length ≤ 4294967295)
    (hlength : buffer.length = answer.output.length) :
    ∃ last, inflate stream buffer = ⟨.ok (), answer.output, some (.ok last)⟩ ∧
      last.totalIn = answer.session.totalIn ∧ last.totalOut = answer.session.totalOut := by
  rcases (step_finish_iff hanswer).mp hend with ⟨_, hfinished, _⟩
  rcases step_finish_totals hanswer hend with ⟨houtput, hin, hout⟩
  have hsize : (Inflater.after (Bits.ofBytes stream)).content.size = buffer.length := by
    rw [hlength, houtput, Array.length_toList]
  rcases inflate_runs hlengths with ⟨before, given, outcome, hreading, hroom, hdecision, _, hruns⟩
  rcases hruns buffer rfl with ⟨filled, hrun⟩
  rcases Inflate.decision_of_isFinished hfinished hreading hroom hdecision with
    ⟨_, houtcome⟩ | ⟨hless, _⟩
  · rw [if_pos hsize] at houtcome
    subst houtcome
    have hcomplete := (Inflate.stepOf_reading buffer.length hreading).right.complete
      (Inflate.verdict_eq_ok.mp hdecision).left
    rcases Inflate.buffer_of_session hrun with ⟨delivered, hlast, hfilled⟩
    rcases hlast.of_isComplete hcomplete with ⟨hafter, hall⟩
    have hended := (hlast.stream_of_isComplete hcomplete).left
    rw [← hafter, ← houtput] at hall
    rw [inflate_eq hrun, hfilled, hall, ← hlength, List.drop_length, List.append_nil]
    refine ⟨_, rfl, ?_, ?_⟩
    · rw [hended, Inflater.ended] at hin
      dsimp only at hin
      omega
    · rw [hlast.follows.totalOut_eq, hall, hout]
  · omega

theorem endsAs_of_streamEnd (hanswer : initial.step stream room .finish = answer)
    (hend : answer.result = .ok .streamEnd) :
    EndsAs stream answer := by
  rcases (step_finish_iff hanswer).mp hend with ⟨_, hfinished, _⟩
  rcases step_finish_totals hanswer hend with ⟨houtput, _, _⟩
  have hsize : (Inflater.after (Bits.ofBytes stream)).content.size = answer.output.length := by
    rw [houtput, Array.length_toList]
  constructor
  · intro offers hflush hended
    have hcourse : (course stream offers).result? = some (.ok .streamEnd) := by
      rcases hended with hcourse | ⟨fault, hcourse⟩
      · exact hcourse
      · have hfailed := (of_fault hflush hcourse).right
        rw [Inflater.hasFailed_of_isFinished hfinished] at hfailed
        exact Bool.noConfusion hfailed
    exact ⟨hcourse, totals_of_streamEnd hanswer hend hflush hcourse⟩
  · intro offers hflush hproductive hlength
    rw [← hsize] at hlength
    rcases exists_streamEnd hflush hproductive hfinished hlength with ⟨front, back, hoffers, _, h⟩
    exact ⟨front, back, hoffers, h⟩
  · intro buffer hstream hbuffer hlength
    exact inflate_of_streamEnd hanswer hend ⟨hstream, hbuffer⟩ hlength

theorem totals_of_deflate {input : Bytes} (hdeflate : deflateToBound input = .ok stream)
    (hanswer : initial.step stream input.length .finish = answer) :
    answer.result = .ok .streamEnd ∧ answer.output = input ∧
      answer.session.totalIn = stream.length ∧ answer.session.totalOut = input.length := by
  have hwritten := (deflateToBound_eq_ok.mp hdeflate).right
  have hwithin := Encoder.staysWithin_finish .balanced input
  have hstream := (Encoder.closed_finish .balanced input).left.stream
  rw [List.nil_append, hwritten] at hstream
  rw [hwritten] at hwithin
  have hafter := Inflater.after_stream hstream []
  rw [List.append_nil] at hafter
  have hend : answer.result = .ok .streamEnd := by
    apply (step_finish_iff hanswer).mpr
    rw [hafter]
    exact ⟨hwithin, rfl, Nat.le_refl _⟩
  rcases step_finish_totals hanswer hend with ⟨houtput, hin, hout⟩
  rw [hafter, Inflater.ended] at houtput hin
  have houtput' : answer.output = input := houtput
  rw [houtput'] at hout
  refine ⟨hend, houtput', ?_, hout⟩
  dsimp only at hin
  omega

end Agreement

/--
A first step that asks to finish comes to the end exactly as other sessions do, if it has
room for the content and no copy reaches before the start of it.  On what deflating gives,
and it gives something for all input that is not too long, the step comes to the end with
just as much room as the content needs.
-/
theorem finishing_agrees_with_streaming :
    (∀ stream room answer, initial.step stream room .finish = answer →
      answer.result = .ok .streamEnd →
        EndsAs stream answer ∧ (Inflater.initial false).StaysWithin (Bits.ofBytes stream)) ∧
    (∀ stream room answer offers, initial.step stream room .finish = answer →
      (∀ offer ∈ offers, offer.flush ≠ .finish) →
      (course stream offers).result? = some (.ok .streamEnd) →
      (course stream offers).delivered.length ≤ room →
      (Inflater.initial false).StaysWithin (Bits.ofBytes stream) →
        answer.result = .ok .streamEnd ∧
          answer.output = (course stream offers).delivered ∧
          answer.session.totalIn = (course stream offers).session.totalIn ∧
          answer.session.totalOut = (course stream offers).session.totalOut) ∧
    ∀ input : Bytes,
      (input.length ≤ 4294967295 ∧ compressBound input.length ≤ 4294967295 →
        ∃ stream, deflateToBound input = .ok stream) ∧
      ∀ stream answer, deflateToBound input = .ok stream →
        initial.step stream input.length .finish = answer →
          answer.result = .ok .streamEnd ∧ answer.output = input ∧
            answer.session.totalIn = stream.length ∧ answer.session.totalOut = input.length := by
  refine ⟨?_, ?_, ?_⟩
  · intro stream room answer hanswer hend
    exact ⟨endsAs_of_streamEnd hanswer hend, ((step_finish_iff hanswer).mp hend).left⟩
  · intro stream room answer offers hanswer hflush hcourse hroom hwithin
    rcases of_streamEnd hflush hcourse with ⟨hfinished, hdelivered, _, _⟩
    rw [hdelivered, Array.length_toList] at hroom
    have hend := (step_finish_iff hanswer).mpr ⟨hwithin, hfinished, hroom⟩
    rcases totals_of_streamEnd hanswer hend hflush hcourse with ⟨houtput, hin, hout⟩
    exact ⟨hend, houtput.symm, hin.symm, hout.symm⟩
  · intro input
    constructor
    · exact fun hlengths => exists_deflateToBound hlengths.right
    · exact fun stream answer => totals_of_deflate

def sixTimes : Bytes :=
  [0x78, 0x9c, 0x4a, 0x04, 0x03, 0xc0, 0x00, 0x07, 0xfb, 0x02, 0x47]

/-- With room for six bytes the first step reads the stream as three steps of four bytes do. -/
theorem sixTimes_at_once :
    ∃ answer, initial.step sixTimes 6 .finish = answer ∧ answer.result = .ok .streamEnd ∧
      answer.output = List.replicate 6 0x61 ∧ answer.session.totalIn = 11 ∧
      (course sixTimes (List.replicate 3 ⟨7, 4, .partly⟩)).delivered = answer.output ∧
      EndsAs sixTimes answer := by
  have hflush : ∀ offer ∈ List.replicate 3 (⟨7, 4, .partly⟩ : Offer), offer.flush ≠ .finish := by
    decide
  have hcourse : (course sixTimes (List.replicate 3 ⟨7, 4, .partly⟩)).result? =
      some (.ok .streamEnd) := by
    decide +kernel
  have hdelivered : (course sixTimes (List.replicate 3 ⟨7, 4, .partly⟩)).delivered =
      List.replicate 6 0x61 := by
    decide +kernel
  have hwithin : (Inflater.initial false).StaysWithin (Bits.ofBytes sixTimes) := by
    decide +kernel
  have hdeflate : deflateToBound (List.replicate 6 0x61) = .ok sixTimes := by
    decide +kernel
  have hroom : (course sixTimes (List.replicate 3 ⟨7, 4, .partly⟩)).delivered.length ≤ 6 := by
    rw [hdelivered, List.length_replicate]
  rcases finishing_agrees_with_streaming with ⟨hforth, hback, hwritten⟩
  generalize hanswer : initial.step sixTimes 6 .finish = answer
  have hanswer' : initial.step sixTimes (List.replicate 6 (0x61 : UInt8)).length .finish =
      answer := by
    rw [List.length_replicate]
    exact hanswer
  rcases hback sixTimes 6 answer _ hanswer hflush hcourse hroom hwithin with ⟨hend, houtput, _, _⟩
  rcases (hwritten _).right sixTimes answer hdeflate hanswer' with ⟨_, hsame, hin, _⟩
  exact ⟨answer, rfl, hend, hsame, hin, houtput.symm,
    (hforth sixTimes 6 answer hanswer hend).left⟩

end Decoder
end BoundedZlib
