import BoundedZlib.Proofs.ExactSize
import BoundedZlib.Proofs.WritingSessions
import BoundedZlib.SingleShot.Deflate

/-!
# Deflating and inflating

What deflating writes is a stream for its input that fits into the room that is
set aside for it, so inflating gives the input back.
-/

namespace BoundedZlib

/-!
## Room
-/

theorem le_compressBound {length blocks bytes : Nat}
    (hblocks : Block.closeAt * blocks ≤ length + Block.closeAt)
    (hbytes : 8 * bytes ≤ 16 + (42 * blocks + 8 * length) + 49)
    (hlimit : compressBound length ≤ 4294967295) :
    bytes ≤ compressBound length := by
  have hclose : Block.closeAt = 32768 := rfl
  have hmax : maxSize = 18446744073709551615 := rfl
  simp only [compressBound, Nat.shiftRight_eq_div_pow, hmax] at hlimit ⊢
  rw [hclose] at hblocks
  omega

/-!
## The end of a stream
-/

theorem Format.Stream.trailer {stream content : Bytes} (hstream : Format.Stream stream content) :
    ∃ front, stream = front ++ ByteOrder.big.encode 4 (Format.checksum content) := by
  cases hstream with
  | intro hopening hlast hpadding haligned hbits =>
      rw [← List.length_append, ← List.length_append] at haligned
      rcases Bits.split_ofBytes hbits haligned with ⟨front, trailer, hsplit, _, htrailer⟩
      rw [Bits.ofBytes_injective htrailer] at hsplit
      exact ⟨front, hsplit⟩

/-!
## One step
-/

namespace Encoder

theorem closed_finish (level : Level) (input : Bytes) :
    Closed level ((initial level).extend input .finish) [] input ∧
      (compressBound input.length ≤ 4294967295 →
        ((initial level).extend input .finish).queue.length ≤ compressBound input.length) := by
  have hnew : Unclosed level (initial level) [] [] := Or.inl ⟨rfl, rfl, rfl⟩
  rcases hnew.finish input with ⟨hclosed, blocks, hblocks, hbytes⟩
  rw [List.nil_append] at hclosed hblocks hbytes
  refine ⟨hclosed, fun hlimit => ?_⟩
  have hheader : (Bits.ofBytes (header level)).length = 16 := by
    rcases isHeader_header level with ⟨method, flags, hheader, _⟩
    rw [hheader, Bits.length_ofBytes]
    rfl
  rw [written_openStream_initial, hheader] at hbytes
  exact le_compressBound hblocks hbytes hlimit

theorem step_finish (level : Level) (input : Bytes) {room : Nat} {written : Bytes}
    (hwritten : ((initial level).extend input .finish).queue = written)
    (hpos : 0 < room)
    (hroom : written.length ≤ room)
    {answer : Reply}
    (hanswer : (initial level).step input room .finish = answer) :
    answer.output = written ∧ answer.session.totalOut = written.length ∧
      answer.result = .ok .streamEnd := by
  rw [← hwritten] at hroom
  rcases deliver_of_length_le hroom with ⟨houtput, hqueue⟩
  have htotal := (((closed_finish level input).left).deliver room).totalOut_eq
  rw [step_unclosed input .finish hpos rfl] at hanswer
  rw [← hanswer]
  refine ⟨houtput.trans hwritten, ?_, ?_⟩
  · rw [htotal, List.nil_append, houtput, hwritten]
  · rw [verdict, hqueue]
    rfl

end Encoder

/-!
## Single-shot calls
-/

theorem deflateWithin_of_length_le {input written : Bytes} {capacity : Nat}
    (hlengths : input.length ≤ 4294967295 ∧ capacity ≤ 4294967295)
    (hwritten : ((Encoder.initial .balanced).extend input .finish).queue = written)
    (hpos : 0 < capacity)
    (hroom : written.length ≤ capacity) :
    deflateWithin input capacity = .ok written := by
  have hcheck := checkLengths_eq_ok.mpr hlengths
  have hstart : Encoder.start {} = .ok (Encoder.initial .balanced) := rfl
  have hmax : Encoder.engine.maxLength = 4294967295 := rfl
  generalize hanswer : (Encoder.initial .balanced).step input capacity .finish = answer
  rcases Encoder.step_finish .balanced input hwritten hpos hroom hanswer with
    ⟨houtput, htotal, hresult⟩
  have hcursor : SingleShot.cursor written.length capacity = written.length :=
    Nat.min_eq_left hroom
  simp only [deflateWithin, hmax, hcheck, hstart, bind, Except.bind, Except.mapError, hanswer,
    houtput, htotal, hresult, Deflate.verdict, hcursor, pure, Except.pure, List.take_length]

theorem deflateToBound_of_lengths_lt {input : Bytes}
    (hlengths : ¬ (input.length ≤ 4294967295 ∧ compressBound input.length ≤ 4294967295)) :
    deflateToBound input =
      .error (if input.length ≤ 4294967295
        then .bufferTooLarge (compressBound input.length) 4294967295
        else .bufferTooLarge input.length 4294967295) := by
  have hmax : Encoder.engine.maxLength = 4294967295 := rfl
  by_cases hlength : input.length ≤ 4294967295
  · have hbound : ¬ compressBound input.length ≤ 4294967295 := fun h => hlengths ⟨hlength, h⟩
    simp [deflateToBound, deflateWithin, SingleShot.checkLengths, SingleShot.checkLength, hmax,
      hlength, hbound, bind, Except.bind]
  · simp [deflateToBound, deflateWithin, SingleShot.checkLengths, SingleShot.checkLength, hmax,
      hlength, bind, Except.bind]

theorem compressBound_pos (length : Nat) : 0 < compressBound length :=
  Nat.lt_min.mpr ⟨Nat.lt_add_left _ (by decide), by decide⟩

/-- Input that the engine can count deflates into a stream that inflates to it; other is refused. -/
theorem deflateToBound_round_trip (input : Bytes) :
    (input.length ≤ 4294967295 ∧ compressBound input.length ≤ 4294967295 →
      ∃ stream, deflateToBound input = .ok stream ∧
        stream.length ≤ compressBound input.length ∧
        [0x78, 0x9c] <+: stream ∧
        stream.drop (stream.length - 4) = ByteOrder.big.encode 4 (Format.checksum input) ∧
        inflateToSize stream input.length = .ok input) ∧
    (¬ (input.length ≤ 4294967295 ∧ compressBound input.length ≤ 4294967295) →
      deflateToBound input =
        .error (if input.length ≤ 4294967295
          then .bufferTooLarge (compressBound input.length) 4294967295
          else .bufferTooLarge input.length 4294967295)) ∧
    ∀ capacity, deflateToBound input ≠ .error (.bufferTooSmall capacity) := by
  have hsmall : input.length ≤ 4294967295 ∧ compressBound input.length ≤ 4294967295 →
      deflateToBound input = .ok ((Encoder.initial .balanced).extend input .finish).queue := by
    intro hlengths
    exact deflateWithin_of_length_le hlengths rfl (compressBound_pos _)
      ((Encoder.closed_finish .balanced input).right hlengths.right)
  refine ⟨?_, deflateToBound_of_lengths_lt, ?_⟩
  · intro hlengths
    rcases Encoder.closed_finish .balanced input with ⟨hclosed, hroom⟩
    have hheader := hclosed.header
    have hstream := hclosed.stream
    have hdeflate := hsmall hlengths
    have hlength := hroom hlengths.right
    rw [List.nil_append] at hheader hstream
    generalize ((Encoder.initial .balanced).extend input .finish).queue = stream
      at hheader hstream hdeflate hlength
    refine ⟨stream, hdeflate, hlength, hheader, ?_, ?_⟩
    · rcases hstream.trailer with ⟨front, hfront⟩
      have hfour := ByteOrder.length_encode .big 4 (Format.checksum input)
      rw [hfront, List.length_append, hfour, Nat.add_sub_cancel, List.drop_left]
    · apply inflateToSize_eq_ok.mpr
      refine ⟨⟨Nat.le_trans hlength hlengths.right, hlengths.left⟩, rfl, ?_⟩
      exact Inflater.isFinished_iff_stream.mpr ⟨stream, [], (List.append_nil _).symm, hstream⟩
  · intro capacity herror
    by_cases hlengths : input.length ≤ 4294967295 ∧ compressBound input.length ≤ 4294967295
    · rw [hsmall hlengths] at herror
      cases herror
    · rw [deflateToBound_of_lengths_lt hlengths] at herror
      split at herror <;> cases herror

/-- A single byte fits into the room of fourteen that is set aside for it. -/
theorem deflateToBound_letter :
    ∃ stream, deflateToBound [0x61] = .ok stream ∧ stream.length ≤ 14 ∧
      [0x78, 0x9c] <+: stream ∧
      stream.drop (stream.length - 4) = ByteOrder.big.encode 4 (Format.checksum [0x61]) ∧
      inflateToSize stream 1 = .ok [0x61] :=
  (deflateToBound_round_trip [0x61]).left ⟨by decide, by decide⟩

end BoundedZlib
