import BoundedZlib.Proofs.ExactSize

/-!
# Inflating to another size

A stream is accepted at the size of its content only.  With more room the call
reaches the end of the stream and tells how much it has produced; with less it fills
its room and stands still in front of the end.
-/

namespace BoundedZlib

namespace Inflate

/-- A session that has filled its room stands still for want of room, unless it was given none. -/
theorem stallError_filled (input size consumed : Nat) :
    (0 < size → stallError ⟨input, size⟩ ⟨consumed, size⟩ = outputFull) ∧
      (size = 0 → stallError ⟨input, size⟩ ⟨consumed, size⟩ = .unexpectedEnd 0 0 ∨
        stallError ⟨input, size⟩ ⟨consumed, size⟩ = noProgress) := by
  constructor
  · intro hpos
    exact if_pos ⟨Nat.ne_of_gt hpos, Nat.min_self size⟩
  · intro hnone
    subst hnone
    unfold stallError
    rw [if_neg (fun hfull => hfull.left rfl)]
    split
    · exact Or.inl rfl
    · exact Or.inr rfl

end Inflate

/--
A stream is accepted at one size.  At any other size the call is decided, for a new
buffer and for the caller's, by an error that tells whether there was too much room,
too little, or none.
-/
theorem inflate_size_mismatch {input content : Bytes} {size : Nat}
    (haccepted : inflateToSize input size = .ok content) :
    (∀ capacity other, inflateToSize input capacity = .ok other → capacity = size) ∧
    ∀ capacity, capacity ≤ 4294967295 → capacity ≠ size →
      ∃ error, inflateToSize input capacity = .error (.error error) ∧
        (∀ buffer : Bytes, buffer.length = capacity →
          inflateWith Decoder.engine (Inflate.maxSteps ⟨input.length, capacity⟩) input buffer =
            some (inflate input buffer) ∧
          (inflate input buffer).outcome = .error error) ∧
        (size < capacity → error = .unexpectedEnd capacity size) ∧
        (0 < capacity → capacity < size →
          error = .internal .inflate "output buffer full before end of stream") ∧
        (capacity = 0 →
          error = .unexpectedEnd 0 0 ∨ error = .internal .inflate "no progress possible") := by
  rcases inflateToSize_eq_ok.mp haccepted with ⟨⟨hinput, _⟩, hlength, hfinished, hcontent⟩
  have hsize : (Inflater.after (Bits.ofBytes input)).content.size = size := by
    rw [← hlength, ← hcontent, Array.length_toList]
  constructor
  · intro capacity other hother
    rcases inflateToSize_eq_ok.mp hother with ⟨_, hlength', _, hcontent'⟩
    rw [← hlength, ← hlength', ← hcontent, hcontent']
  · intro capacity hcapacity hother
    rcases inflate_decided ⟨hinput, hcapacity⟩ with
      ⟨before, given, outcome, hreading, hroom, hdecision, hnew, hbuffers⟩
    rcases Inflate.decision_of_isFinished hfinished hreading hroom hdecision with
      ⟨hle, houtcome⟩ | ⟨hlt, consumed, houtcome⟩
    · rw [hsize] at hle houtcome
      rw [if_neg hother.symm] at houtcome
      subst houtcome
      refine ⟨_, hnew, hbuffers, fun _ => rfl, ?_, ?_⟩
      · intro _ hless
        omega
      · intro hnone
        omega
    · rw [hsize] at hlt
      subst houtcome
      rcases Inflate.stallError_filled input.length capacity consumed with ⟨hfull, hempty⟩
      refine ⟨_, hnew, hbuffers, ?_, fun hpos _ => hfull hpos, hempty⟩
      intro hmore
      omega

/-- A stream of two bytes does not go into one byte, nor into three, nor into none. -/
theorem inflate_stored_pair_mismatch :
    (inflate [0x78, 0x01, 0x01, 0x02, 0x00, 0xfd, 0xff, 0x61, 0x62, 0x01, 0x26, 0x00, 0xc4]
        [0xaa]).outcome =
      .error (.internal .inflate "output buffer full before end of stream") ∧
    inflateToSize [0x78, 0x01, 0x01, 0x02, 0x00, 0xfd, 0xff, 0x61, 0x62, 0x01, 0x26, 0x00, 0xc4]
        3 = .error (.error (.unexpectedEnd 3 2)) ∧
    ∃ error, (inflate
        [0x78, 0x01, 0x01, 0x02, 0x00, 0xfd, 0xff, 0x61, 0x62, 0x01, 0x26, 0x00, 0xc4]
        []).outcome = .error error ∧
      (error = .unexpectedEnd 0 0 ∨ error = .internal .inflate "no progress possible") := by
  have haccepted : inflateToSize
      [0x78, 0x01, 0x01, 0x02, 0x00, 0xfd, 0xff, 0x61, 0x62, 0x01, 0x26, 0x00, 0xc4] 2 =
        .ok [0x61, 0x62] :=
    inflateToSize_eq_ok.mpr ⟨⟨by decide, by decide⟩, rfl,
      Inflater.isFinished_iff_stream.mpr ⟨_, [], rfl, Format.stream_stored_pair⟩⟩
  have hmismatch := (inflate_size_mismatch haccepted).right
  refine ⟨?_, ?_, ?_⟩
  · rcases hmismatch 1 (by decide) (by decide) with ⟨error, _, hbuffers, _, hfull, _⟩
    rw [(hbuffers [0xaa] rfl).right, hfull (by decide) (by decide)]
  · rcases hmismatch 3 (by decide) (by decide) with ⟨error, hnew, _, hmore, _, _⟩
    rw [hnew, hmore (by decide)]
  · rcases hmismatch 0 (by decide) (by decide) with ⟨error, _, hbuffers, _, _, hempty⟩
    exact ⟨error, (hbuffers [] rfl).right, hempty rfl⟩

end BoundedZlib
