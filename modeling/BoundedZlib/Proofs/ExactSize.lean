import BoundedZlib.Proofs.BufferContents
import BoundedZlib.Proofs.Driving
import BoundedZlib.Proofs.Language
import BoundedZlib.Proofs.StoredStreams

/-!
# Inflating to an exact size

A call succeeds exactly if reading the input in full reaches the end of a stream,
with as much content as was declared.
-/

namespace BoundedZlib

open SingleShot

theorem lengths_of_inflateToSize {input content : Bytes} {size : Nat}
    (hinflate : inflateToSize input size = .ok content) :
    input.length ≤ 4294967295 ∧ size ≤ 4294967295 := by
  rw [← checkLengths_eq_ok]
  unfold inflateToSize inflateWithin at hinflate
  rw [show Decoder.engine.maxLength = 4294967295 from rfl] at hinflate
  cases hcheck : checkLengths input.length size 4294967295 with
  | ok value => rfl
  | error error =>
      rw [hcheck] at hinflate
      cases hallocate : Failure.allocate size with
      | ok value =>
          rw [hallocate] at hinflate
          cases hinflate
      | error failure =>
          rw [hallocate] at hinflate
          cases hinflate

theorem inflateToSize_eq_ok {input content : Bytes} {size : Nat} :
    inflateToSize input size = .ok content ↔
      (input.length ≤ 4294967295 ∧ size ≤ 4294967295) ∧ content.length = size ∧
        (Inflater.after (Bits.ofBytes input)).isFinished = true ∧
        (Inflater.after (Bits.ofBytes input)).content.toList = content := by
  constructor
  · intro hinflate
    have hlengths := lengths_of_inflateToSize hinflate
    rcases inflate_decided hlengths with
      ⟨before, given, outcome, hreading, _, hdecision, hnew, _⟩
    rw [hnew] at hinflate
    cases outcome with
    | error error => cases hinflate
    | ok value =>
        injection hinflate with hcontent
        rcases Inflate.complete_of_decision hreading hdecision with ⟨hfinished, hsize, hafter⟩
        rw [hafter] at hcontent
        refine ⟨hlengths, ?_, hfinished, hcontent⟩
        rw [← hcontent, Array.length_toList, hsize]
  · intro h
    rcases h with ⟨hlengths, hlength, hfinished, hcontent⟩
    have hsize : (Inflater.after (Bits.ofBytes input)).content.size = size := by
      rw [← hlength, ← hcontent, Array.length_toList]
    rcases inflate_decided hlengths with
      ⟨before, given, outcome, hreading, hroom, hdecision, hnew, _⟩
    rcases Inflate.decision_of_isFinished hfinished hreading hroom hdecision with
      ⟨_, houtcome⟩ | ⟨hless, _⟩
    · rw [if_pos hsize] at houtcome
      subst houtcome
      rw [hnew, (Inflate.complete_of_decision hreading hdecision).right.right, hcontent]
      rfl
    · rw [hsize] at hless
      exact absurd hless (Nat.lt_irrefl size)

/--
A call that allocates its output ends as one into a buffer of that size, whatever this held,
and returns what that leaves in it.
-/
theorem inflateToSize_eq_inflate (input : Bytes) {buffer : Bytes}
    (hsize : buffer.length ≤ Failure.maxCapacity) :
    inflateToSize input buffer.length =
      Failure.lift ((inflate input buffer).outcome.map fun () =>
        (inflate input buffer).buffer) := by
  have hmax : Decoder.engine.maxLength = 4294967295 := rfl
  cases hcheck : checkLengths input.length buffer.length 4294967295 with
  | error error =>
      have hrun : inflateWith Decoder.engine (Inflate.maxSteps ⟨input.length, buffer.length⟩)
          input buffer = some ⟨.error error, buffer, none⟩ := by
        rw [inflateWith, hmax, hcheck]
      rw [inflate_eq hrun, inflateToSize, Failure.allocate, if_pos hsize, inflateWithin, hmax,
        hcheck]
      rfl
  | ok value =>
      rcases inflate_runs (checkLengths_eq_ok.mp hcheck) with
        ⟨before, given, outcome, hreading, hroom, hdecision, hnew, hruns⟩
      rcases hruns buffer rfl with ⟨filled, hrun⟩
      rw [inflate_eq hrun, hnew]
      cases outcome with
      | error error => rfl
      | ok value =>
          have hall := (Inflate.tells_of_decision hreading hroom hdecision).whole rfl
          rcases Inflate.complete_of_decision hreading hdecision with ⟨_, hcontent, hafter⟩
          rcases Inflate.buffer_of_session hrun with ⟨delivered, hlast, hfilled⟩
          have hlength := hlast.follows.totalOut_eq.symm.trans hall
          have hdelivered : delivered =
              (Inflater.after (Bits.ofBytes input)).content.toList :=
            hlast.delivered_prefix.eq_of_length
              (hlength.trans (hcontent.symm.trans Array.length_toList.symm))
          rw [hlength, List.drop_length, List.append_nil, hdelivered] at hfilled
          rw [hafter, hfilled]

/-!
## The streams that inflating accepts
-/

theorem inflateToSize_eq_ok_iff_stream {bytes : Bytes} {size : Nat}
    (hbytes : bytes.length ≤ 4294967295)
    (hsize : size ≤ 4294967295) :
    (∀ content, inflateToSize bytes size = .ok content ↔
      content.length = size ∧
        ∃ stream rest, bytes = stream ++ rest ∧ Format.Stream stream content) ∧
    ∀ stream rest content, bytes = stream ++ rest → Format.Stream stream content →
      ∀ result, inflateToSize bytes size = .ok result ↔ inflateToSize stream size = .ok result := by
  have haccepts : ∀ content, inflateToSize bytes size = .ok content ↔
      content.length = size ∧
        ∃ stream rest, bytes = stream ++ rest ∧ Format.Stream stream content := by
    intro content
    rw [inflateToSize_eq_ok, ← Inflater.isFinished_iff_stream]
    constructor
    · intro h
      exact h.right
    · intro h
      exact ⟨⟨hbytes, hsize⟩, h⟩
  refine ⟨haccepts, ?_⟩
  intro stream rest content hsplit hstream result
  have hstart : stream.length ≤ 4294967295 := by
    rw [hsplit, List.length_append] at hbytes
    omega
  have hall := Inflater.after_stream hstream (Bits.ofBytes rest)
  have hfront := Inflater.after_stream hstream []
  rw [← Bits.ofBytes_append, ← hsplit] at hall
  rw [List.append_nil] at hfront
  rw [inflateToSize_eq_ok, inflateToSize_eq_ok, hall, hfront]
  constructor
  · intro h
    exact ⟨⟨hstart, hsize⟩, h.right⟩
  · intro h
    exact ⟨⟨hbytes, hsize⟩, h.right⟩

theorem inflateToSize_stored_byte :
    inflateToSize [0x78, 0x01, 0x01, 0x01, 0x00, 0xfe, 0xff, 0x61, 0x00, 0x62, 0x00, 0x62, 0xff]
      1 = .ok [0x61] :=
  ((inflateToSize_eq_ok_iff_stream (by decide) (by decide)).left [0x61]).mpr
    ⟨rfl, _, [0xff], rfl, Format.stream_stored_byte⟩

end BoundedZlib
