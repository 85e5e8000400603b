import BoundedZlib.Proofs.RoundTrip

/-!
# Room for deflating

What deflating writes does not depend on the room it is given.  With room for all
of it the stream is at the front of the buffer and the rest of the buffer is as it
was; with less room the call fails.
-/

namespace BoundedZlib

namespace Encoder

theorem step_finish_short (level : Level) (input : Bytes) {room : Nat} {written : Bytes}
    (hwritten : ((initial level).extend input .finish).queue = written)
    (hshort : room < written.length)
    {answer : Reply}
    (hanswer : (initial level).step input room .finish = answer) :
    answer.result = .ok (if room = 0 then .stalled else .ok) := by
  rw [← hanswer]
  by_cases hroom : room = 0
  · rw [hroom, step_no_room]
    rfl
  · have hqueue : (((initial level).extend input .finish).deliver room).1.queue ≠ [] := by
      intro hnone
      have hdropped : written.drop room = [] := hwritten ▸ hnone
      rw [List.drop_eq_nil_iff] at hdropped
      omega
    rw [step_unclosed input .finish (Nat.pos_of_ne_zero hroom) rfl, if_neg hroom]
    simp only [verdict, List.isEmpty_iff, if_neg hqueue]

end Encoder

/-!
## Single-shot calls
-/

theorem deflateToBound_eq_ok {input stream : Bytes} :
    deflateToBound input = .ok stream ↔
      (input.length ≤ 4294967295 ∧ compressBound input.length ≤ 4294967295) ∧
        ((Encoder.initial .balanced).extend input .finish).queue = stream := by
  by_cases hlengths : input.length ≤ 4294967295 ∧ compressBound input.length ≤ 4294967295
  · have hroom := (Encoder.closed_finish .balanced input).right hlengths.right
    have hdeflate := deflateWithin_of_length_le hlengths rfl (compressBound_pos _) hroom
    rw [deflateToBound, hdeflate, Except.ok.injEq]
    exact ⟨fun h => ⟨hlengths, h⟩, And.right⟩
  · rw [deflateToBound_of_lengths_lt hlengths]
    constructor
    · intro h
      cases h
    · intro h
      exact absurd h.left hlengths

theorem length_le_of_compressBound_le {length : Nat} (hbound : compressBound length ≤ 4294967295) :
    length ≤ 4294967295 := by
  have hmax : maxSize = 18446744073709551615 := rfl
  rw [compressBound, hmax] at hbound
  omega

theorem exists_deflateToBound {input : Bytes} (hbound : compressBound input.length ≤ 4294967295) :
    ∃ stream, deflateToBound input = .ok stream :=
  ⟨_, deflateToBound_eq_ok.mpr ⟨⟨length_le_of_compressBound_le hbound, hbound⟩, rfl⟩⟩

theorem deflateWithin_eq_ok {input stream : Bytes} {capacity : Nat}
    (hdeflate : deflateWithin input capacity = .ok stream) :
    (input.length ≤ 4294967295 ∧ capacity ≤ 4294967295) ∧ stream.length ≤ capacity ∧
      ((Encoder.initial .balanced).extend input .finish).queue = stream := by
  have hmax : Encoder.engine.maxLength = 4294967295 := rfl
  have hstart : Encoder.start {} = .ok (Encoder.initial .balanced) := rfl
  generalize hwritten : ((Encoder.initial .balanced).extend input .finish).queue = written
  have hlengths : input.length ≤ 4294967295 ∧ capacity ≤ 4294967295 := by
    rw [← checkLengths_eq_ok]
    cases hcheck : SingleShot.checkLengths input.length capacity 4294967295 with
    | ok value => rfl
    | error error =>
        rw [deflateWithin, hmax, hcheck] at hdeflate
        cases hdeflate
  rcases Nat.lt_or_ge capacity written.length with hshort | hroom
  · generalize hanswer : (Encoder.initial .balanced).step input capacity .finish = answer
    have hresult := Encoder.step_finish_short .balanced input hwritten hshort hanswer
    have hverdict : Deflate.verdict capacity answer.session.totalOut answer.result =
        .error (.bufferTooSmall capacity) := by
      rw [hresult]
      split
      · rfl
      · rfl
    have hcheck := checkLengths_eq_ok.mpr hlengths
    simp only [deflateWithin, hmax, hcheck, hstart, bind, Except.bind, Except.mapError, hanswer,
      hverdict] at hdeflate
    cases hdeflate
  · have hheader := (Encoder.closed_finish .balanced input).left.header.length_le
    rw [List.nil_append, hwritten] at hheader
    have hpos : 0 < capacity :=
      Nat.lt_of_lt_of_le (Nat.lt_of_lt_of_le (by decide) hheader) hroom
    rw [deflateWithin_of_length_le hlengths hwritten hpos hroom, Except.ok.injEq] at hdeflate
    rw [← hdeflate]
    exact ⟨hlengths, hroom, rfl⟩

theorem inflateToSize_of_deflateWithin {input stream : Bytes} {capacity : Nat}
    (hdeflate : deflateWithin input capacity = .ok stream) :
    stream.length ≤ 4294967295 ∧ inflateToSize stream input.length = .ok input := by
  rcases deflateWithin_eq_ok hdeflate with ⟨hlengths, hroom, hwritten⟩
  have hstream := (Encoder.closed_finish .balanced input).left.stream
  have hlength := Nat.le_trans hroom hlengths.right
  rw [hwritten] at hstream
  refine ⟨hlength, inflateToSize_eq_ok.mpr ⟨⟨hlength, hlengths.left⟩, rfl, ?_⟩⟩
  exact Inflater.isFinished_iff_stream.mpr ⟨stream, [], (List.append_nil _).symm, hstream⟩

theorem inflateToSize_of_deflateToBound {input stream : Bytes}
    (hdeflate : deflateToBound input = .ok stream) :
    stream.length ≤ 4294967295 ∧ inflateToSize stream input.length = .ok input :=
  inflateToSize_of_deflateWithin hdeflate

theorem deflateToCapacity_eq_ok {input stream : Bytes} {capacity : Nat} :
    deflateToCapacity input capacity = .ok stream ↔
      capacity ≤ Failure.maxCapacity ∧ deflateWithin input capacity = .ok stream := by
  unfold deflateToCapacity Failure.allocate
  by_cases hcapacity : capacity ≤ Failure.maxCapacity
  · rw [if_pos hcapacity]
    cases hdeflate : deflateWithin input capacity with
    | error error => simp [bind, Except.bind, Failure.lift]
    | ok written => simp [bind, Except.bind, Failure.lift, hcapacity]
  · rw [if_neg hcapacity]
    simp [bind, Except.bind, hcapacity]

/--
The length of the stream is the room that a call needs: with as much it writes the
stream and nothing else, with less it fails.
-/
theorem deflate_capacity_threshold {input : Bytes}
    (hlengths : input.length ≤ 4294967295 ∧ compressBound input.length ≤ 4294967295) :
    ∃ stream, deflateToBound input = .ok stream ∧
      ∀ buffer : Bytes, buffer.length ≤ 4294967295 →
        (stream.length ≤ buffer.length →
          (deflate input buffer).outcome = .ok stream.length ∧
            (deflate input buffer).buffer = stream ++ buffer.drop stream.length) ∧
        (buffer.length < stream.length →
          (deflate input buffer).outcome = .error (.bufferTooSmall buffer.length)) := by
  have hmax : Encoder.engine.maxLength = 4294967295 := rfl
  have hstart : Encoder.engine.start {} = .ok (Encoder.initial .balanced) := rfl
  generalize hwritten : ((Encoder.initial .balanced).extend input .finish).queue = stream
  refine ⟨stream, deflateToBound_eq_ok.mpr ⟨hlengths, hwritten⟩, ?_⟩
  intro buffer hbuffer
  have hcheck := checkLengths_eq_ok.mpr ⟨hlengths.left, hbuffer⟩
  generalize hanswer : (Encoder.initial .balanced).step input buffer.length .finish = answer
  have hcall : deflate input buffer =
      ⟨Deflate.verdict buffer.length answer.session.totalOut answer.result,
        Bytes.overwrite buffer answer.output, some (.ok answer.session)⟩ := by
    rw [← hanswer]
    simp only [deflate, deflateWith, hmax, hcheck, hstart]
    rfl
  rw [hcall]
  constructor
  · intro hroom
    have hpos : 0 < buffer.length := by
      have hheader := (Encoder.closed_finish .balanced input).left.header.length_le
      rw [List.nil_append, hwritten] at hheader
      exact Nat.lt_of_lt_of_le (Nat.lt_of_lt_of_le (by decide) hheader) hroom
    rcases Encoder.step_finish .balanced input hwritten hpos hroom hanswer with
      ⟨houtput, htotal, hresult⟩
    constructor
    · show Deflate.verdict buffer.length answer.session.totalOut answer.result = _
      rw [htotal, hresult, Deflate.verdict, SingleShot.cursor, Nat.min_eq_left hroom]
    · show Bytes.overwrite buffer answer.output = _
      rw [houtput, Bytes.overwrite, List.take_of_length_le hroom]
  · intro hshort
    show Deflate.verdict buffer.length answer.session.totalOut answer.result = _
    rw [Encoder.step_finish_short .balanced input hwritten hshort hanswer]
    split
    · rfl
    · rfl

/-- The stream of one letter has ten bytes: it fits into ten but not into nine. -/
theorem deflate_letter_capacity :
    deflateToBound [0x61] = .ok [0x78, 0x9c, 0x4a, 0x04, 0x0c, 0x00, 0x00, 0x62, 0x00, 0x62] ∧
    (deflate [0x61] (List.replicate 10 0xaa)).outcome = .ok 10 ∧
    (deflate [0x61] (List.replicate 12 0xaa)).buffer =
      [0x78, 0x9c, 0x4a, 0x04, 0x0c, 0x00, 0x00, 0x62, 0x00, 0x62, 0xaa, 0xaa] ∧
    (deflate [0x61] (List.replicate 9 0xaa)).outcome = .error (.bufferTooSmall 9) := by
  have hletter : deflateToBound [0x61] =
      .ok [0x78, 0x9c, 0x4a, 0x04, 0x0c, 0x00, 0x00, 0x62, 0x00, 0x62] := by
    decide +kernel
  have hlengths : ([0x61] : Bytes).length ≤ 4294967295 ∧
      compressBound ([0x61] : Bytes).length ≤ 4294967295 :=
    ⟨by decide, by decide⟩
  rcases deflate_capacity_threshold hlengths with ⟨stream, hstream, hbuffers⟩
  rw [hletter, Except.ok.injEq] at hstream
  subst hstream
  refine ⟨hletter, ?_, ?_, ?_⟩
  · exact ((hbuffers (List.replicate 10 0xaa) (by decide)).left (by decide)).left
  · exact ((hbuffers (List.replicate 12 0xaa) (by decide)).left (by decide)).right
  · exact (hbuffers (List.replicate 9 0xaa) (by decide)).right (by decide)

end BoundedZlib
