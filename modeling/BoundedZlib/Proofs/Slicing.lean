import BoundedZlib.Proofs.ExactSize

/-!
# Slicing the work of a decoder

Two sessions on the same bytes may be offered them in different pieces and be
given different room.  What they deliver and how they end is the same.
-/

namespace BoundedZlib
namespace Decoder

theorem Reading.stream_of_isComplete {stream delivered : Bytes} {session : Decoder}
    (hreading : session.Reading stream delivered) (hcomplete : session.isComplete = true) :
    Inflater.after (Bits.ofBytes stream) = Inflater.ended (8 * session.totalIn) delivered ∧
      Format.Stream (stream.take session.totalIn) delivered := by
  rcases hreading.of_isComplete hcomplete with ⟨hafter, hdelivered⟩
  have hfinished : (Inflater.after (Bits.ofBytes stream)).isFinished = true := by
    rw [isComplete, Bool.and_eq_true] at hcomplete
    rw [hafter]
    exact hcomplete.left
  rcases Inflater.stream_of_isFinished hfinished with ⟨front, rest, content, hstream, hfront⟩
  have hended := Inflater.after_stream hfront (Bits.ofBytes rest)
  rw [← Bits.ofBytes_append, ← hstream] at hended
  have hbounds := hreading.totalIn_bounds
  rw [← hafter, hended] at hbounds hdelivered
  have hin : session.totalIn = front.length := by
    have hposition : (Inflater.ended (8 * front.length) content).position =
        8 * front.length := rfl
    omega
  have hcontent : delivered = content := hdelivered
  rw [hended, hin, hcontent, hstream, List.take_left]
  exact ⟨rfl, hfront⟩

def Course.HasEnded (course : Course) : Prop :=
  course.result? = some (.ok .streamEnd) ∨ ∃ fault, course.result? = some (.error fault)

section Slicing

variable {stream : Bytes} {offers : List Offer}

theorem of_streamEnd (hflush : ∀ offer ∈ offers, offer.flush ≠ .finish)
    (hend : (course stream offers).result? = some (.ok .streamEnd)) :
    (Inflater.after (Bits.ofBytes stream)).isFinished = true ∧
      (course stream offers).delivered =
        (Inflater.after (Bits.ofBytes stream)).content.toList ∧
      8 * (course stream offers).session.totalIn =
        (Inflater.after (Bits.ofBytes stream)).position ∧
      Format.Stream (stream.take (course stream offers).session.totalIn)
        (course stream offers).delivered := by
  have hreading : (course stream offers).session.Reading stream
      (course stream offers).delivered := course_reading hflush
  rcases hreading.stream_of_isComplete ((course_answers hflush).left hend) with
    ⟨hended, hstream⟩
  rw [hended]
  exact ⟨rfl, rfl, rfl, hstream⟩

theorem of_fault (hflush : ∀ offer ∈ offers, offer.flush ≠ .finish) {fault : Fault}
    (hend : (course stream offers).result? = some (.error fault)) :
    fault = malformed ∧ (Inflater.after (Bits.ofBytes stream)).hasFailed = true := by
  have hreading : (course stream offers).session.Reading stream
      (course stream offers).delivered := course_reading hflush
  rcases (course_answers hflush).right fault hend with ⟨hfault, hfailed⟩
  rw [hreading.after_of_hasFailed hfailed]
  exact ⟨hfault, hfailed⟩

/-- The end is reached in time by steps that are all offered something. -/
theorem exists_streamEnd (hflush : ∀ offer ∈ offers, offer.flush ≠ .finish)
    (hproductive : ∀ offer ∈ offers, offer.Productive)
    (hfinished : (Inflater.after (Bits.ofBytes stream)).isFinished = true)
    (hlength : stream.length + (Inflater.after (Bits.ofBytes stream)).content.size + 1 ≤
      offers.length) :
    ∃ front back, offers = front ++ back ∧
      front.length ≤ stream.length + (Inflater.after (Bits.ofBytes stream)).content.size + 1 ∧
      (course stream front).result? = some (.ok .streamEnd) := by
  generalize hsteps : stream.length + (Inflater.after (Bits.ofBytes stream)).content.size = steps
    at hlength ⊢
  have hflush' : ∀ offer ∈ offers.take (steps + 1), offer.flush ≠ .finish :=
    fun offer hmem => hflush offer (List.mem_of_mem_take hmem)
  have hsound := Inflater.hasFailed_of_isFinished hfinished
  rcases course_progress hsound hflush'
    (fun offer hmem => hproductive offer (List.mem_of_mem_take hmem)) with
    ⟨front, back, hoffers, _, hend⟩ | hmany
  · refine ⟨front, back ++ offers.drop (steps + 1), ?_, ?_, hend hfinished⟩
    · rw [← List.append_assoc, ← hoffers, List.take_append_drop]
    · have hfront := congrArg List.length hoffers
      rw [List.length_take, List.length_append] at hfront
      omega
  · have hreading : (course stream (offers.take (steps + 1))).session.Reading stream
        (course stream (offers.take (steps + 1))).delivered := course_reading hflush'
    have hin := hreading.totalIn_le
    have hout := hreading.totalOut_le
    rw [List.length_take] at hmany
    omega

end Slicing

theorem course_independent_of_slicing {stream : Bytes} {first second : List Offer}
    (hfirst : ∀ offer ∈ first, offer.flush ≠ .finish)
    (hsecond : ∀ offer ∈ second, offer.flush ≠ .finish) :
    ((course stream first).delivered <+: (course stream second).delivered ∨
      (course stream second).delivered <+: (course stream first).delivered) ∧
    ((course stream first).HasEnded → (course stream second).HasEnded →
      (course stream first).result? = (course stream second).result? ∧
        ((course stream first).result? = some (.ok .streamEnd) ∨
          (course stream first).result? = some (.error malformed))) ∧
    ((course stream first).result? = some (.ok .streamEnd) →
      (course stream second).result? = some (.ok .streamEnd) →
        (course stream first).delivered = (course stream second).delivered ∧
          (course stream first).session.totalIn = (course stream second).session.totalIn ∧
          (course stream first).session.totalOut = (course stream second).session.totalOut ∧
          Format.Stream (stream.take (course stream first).session.totalIn)
            (course stream first).delivered) ∧
    ∀ content, inflateToSize stream content.length = .ok content →
      (∀ offer ∈ first, offer.Productive) →
      stream.length + content.length + 1 ≤ first.length →
      ∃ front back, first = front ++ back ∧
        front.length ≤ stream.length + content.length + 1 ∧
        (course stream front).result? = some (.ok .streamEnd) := by
  have hreadingFirst : (course stream first).session.Reading stream
      (course stream first).delivered := course_reading hfirst
  have hreadingSecond : (course stream second).session.Reading stream
      (course stream second).delivered := course_reading hsecond
  refine ⟨?_, ?_, ?_, ?_⟩
  · exact List.prefix_or_prefix_of_prefix hreadingFirst.delivered_prefix
      hreadingSecond.delivered_prefix
  · intro hendFirst hendSecond
    rcases hendFirst with hendFirst | ⟨fault, hendFirst⟩
    · rcases hendSecond with hendSecond | ⟨fault, hendSecond⟩
      · rw [hendFirst, hendSecond]
        exact ⟨rfl, Or.inl rfl⟩
      · have hfailed := (of_fault hsecond hendSecond).right
        rw [Inflater.hasFailed_of_isFinished (of_streamEnd hfirst hendFirst).left] at hfailed
        exact Bool.noConfusion hfailed
    · rcases hendSecond with hendSecond | ⟨fault', hendSecond⟩
      · have hfailed := (of_fault hfirst hendFirst).right
        rw [Inflater.hasFailed_of_isFinished (of_streamEnd hsecond hendSecond).left] at hfailed
        exact Bool.noConfusion hfailed
      · rw [hendFirst, hendSecond, (of_fault hfirst hendFirst).left,
          (of_fault hsecond hendSecond).left]
        exact ⟨rfl, Or.inr rfl⟩
  · intro hendFirst hendSecond
    rcases of_streamEnd hfirst hendFirst with ⟨_, hdeliveredFirst, hinFirst, hstream⟩
    rcases of_streamEnd hsecond hendSecond with ⟨_, hdeliveredSecond, hinSecond, _⟩
    have hdelivered := hdeliveredFirst.trans hdeliveredSecond.symm
    refine ⟨hdelivered, by omega, ?_, hstream⟩
    rw [hreadingFirst.follows.totalOut_eq, hreadingSecond.follows.totalOut_eq, hdelivered]
  · intro content hinflate hproductive hlength
    rcases inflateToSize_eq_ok.mp hinflate with ⟨_, _, hfinished, hcontent⟩
    have hsize : (Inflater.after (Bits.ofBytes stream)).content.size = content.length := by
      rw [← hcontent]
      rfl
    rw [← hsize] at hlength ⊢
    exact exists_streamEnd hfirst hproductive hfinished hlength

/-- Fourteen steps of a byte each read a stream of twelve bytes to its end. -/
theorem course_byte_by_byte :
    ∃ front back, List.replicate 14 ⟨1, 1, .none⟩ = front ++ back ∧ front.length ≤ 14 ∧
      (course [0x78, 0x01, 0x01, 0x01, 0x00, 0xfe, 0xff, 0x61, 0x00, 0x62, 0x00, 0x62]
        front).result? = some (.ok .streamEnd) := by
  have hinflate : inflateToSize
      [0x78, 0x01, 0x01, 0x01, 0x00, 0xfe, 0xff, 0x61, 0x00, 0x62, 0x00, 0x62] 1 = .ok [0x61] :=
    inflateToSize_eq_ok.mpr ⟨⟨by decide, by decide⟩, rfl,
      Inflater.isFinished_iff_stream.mpr ⟨_, [], rfl, Format.stream_stored_byte⟩⟩
  have hbytewise : ∀ offer ∈ List.replicate 14 (⟨1, 1, .none⟩ : Offer), offer.flush ≠ .finish := by
    decide
  have hwhole : ∀ offer ∈ [(⟨12, 5, .sync⟩ : Offer)], offer.flush ≠ .finish := by
    decide
  exact (course_independent_of_slicing hbytewise hwhole).right.right.right [0x61] hinflate
    (by decide) (by decide)

end Decoder
end BoundedZlib
