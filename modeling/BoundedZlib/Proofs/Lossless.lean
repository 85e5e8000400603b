import BoundedZlib.Proofs.Exchanges

/-!
# Nothing is lost and nothing is doubled

An engine is honest if its totals tell what its steps consume and write.  A call on
such an engine hands on every byte of the input once, and all that is written stands
in the buffer, in order, with what the buffer held before behind it.  This is so after
every step, however the call ends.  The decoder is an honest engine.
-/

namespace BoundedZlib

/-!
## Honest engines
-/

section Engines

variable {ρ σ : Type}

/-- The sessions that an engine comes to. -/
inductive Engine.Reaches (engine : Engine ρ σ) (settings : ρ) : σ → Prop where
  | start {session : σ} (hstart : engine.start settings = .ok session) :
      Reaches engine settings session
  | step {session : σ} (hsession : Reaches engine settings session) (input slice : Bytes)
      (flush : Flush) :
      Reaches engine settings (engine.step session input slice flush).session

/--
Every step consumes a front of its input and writes only a front of its slice, and the
totals count both from zero on.
-/
structure Engine.IsHonest (engine : Engine ρ σ) (settings : ρ) : Prop where
  start : ∀ session, engine.start settings = .ok session →
    engine.totalIn session = 0 ∧ engine.totalOut session = 0
  step : ∀ session, engine.Reaches settings session → ∀ input slice flush answer,
    engine.step session input slice flush = answer →
      ∃ consumed left covered kept written, input = consumed ++ left ∧
        slice = covered ++ kept ∧ answer.slice = written ++ kept ∧
        engine.totalIn answer.session = engine.totalIn session + consumed.length ∧
        engine.totalOut answer.session = engine.totalOut session + written.length

/-- No step takes back what the totals count. -/
def Engine.IsMonotone (engine : Engine ρ σ) (settings : ρ) : Prop :=
  ∀ session, engine.Reaches settings session → ∀ input slice flush,
    engine.totalIn session ≤ engine.totalIn (engine.step session input slice flush).session ∧
      engine.totalOut session ≤ engine.totalOut (engine.step session input slice flush).session

theorem Engine.IsHonest.isMonotone {engine : Engine ρ σ} {settings : ρ}
    (hhonest : engine.IsHonest settings) :
    engine.IsMonotone settings := by
  intro session hreaches input slice flush
  rcases hhonest.step session hreaches input slice flush _ rfl with
    ⟨_, _, _, _, _, _, _, _, hin, hout⟩
  omega

theorem Engine.IsMonotone.on {engine : Engine InflateSettings σ}
    (hmonotone : engine.IsMonotone {}) (input buffer : Bytes) :
    engine.IsMonotoneOn input buffer := by
  intro session exchanges last final hstart hexchanges
  have hreaches : engine.Reaches {} session := .start hstart
  clear hstart
  induction hexchanges with
  | nil =>
      intro exchange hmem
      exact absurd hmem List.not_mem_nil
  | @cons session _ _ _ left _ slice _ answer _ _ _ _ _ hanswer _ ih =>
      have hstep := hmonotone session hreaches left slice .partly
      have hnext := hreaches.step left slice .partly
      rw [hanswer] at hstep hnext
      intro exchange hmem
      cases hmem with
      | head => exact hstep
      | tail _ hmem => exact ih hnext exchange hmem

def Exchange.consumed (engine : Engine ρ σ) (exchange : Exchange σ) : Bytes :=
  exchange.input.take
    (engine.totalIn exchange.answer.session - engine.totalIn exchange.session)

def Exchange.written (engine : Engine ρ σ) (exchange : Exchange σ) : Bytes :=
  exchange.answer.slice.take
    (engine.totalOut exchange.answer.session - engine.totalOut exchange.session)

end Engines

namespace Inflate

open SingleShot

section Calls

variable {σ : Type} {engine : Engine InflateSettings σ} {input buffer : Bytes}

/-!
## The balance of a call
-/

/--
After these steps, with the session and the buffer that they leave, all that was
consumed is the front of the input, all that was written is the front of the buffer,
both up to the totals, and behind it is what was there before.
-/
structure Balanced (engine : Engine InflateSettings σ) (input prior : Bytes)
    (past : List (Exchange σ)) (session : σ) (buffer : Bytes) : Prop where
  totalIn_le : engine.totalIn session ≤ input.length
  totalOut_le : engine.totalOut session ≤ buffer.length
  consumed_eq : past.flatMap (Exchange.consumed engine) = input.take (engine.totalIn session)
  written_eq : past.flatMap (Exchange.written engine) = buffer.take (engine.totalOut session)
  kept : buffer.drop (engine.totalOut session) = prior.drop (engine.totalOut session)

variable {prior : Bytes} {past : List (Exchange σ)} {session : σ}

theorem balanced_start (hhonest : engine.IsHonest {}) (hstart : engine.start {} = .ok session)
    (input prior : Bytes) :
    Balanced engine input prior [] session prior := by
  rcases hhonest.start session hstart with ⟨hin, hout⟩
  constructor
  · rw [hin]
    exact Nat.zero_le _
  · rw [hout]
    exact Nat.zero_le _
  · rw [hin]
    rfl
  · rw [hout]
    rfl
  · rfl

/-- One step keeps the balance. -/
theorem Balanced.step (hhonest : engine.IsHonest {}) (hreaches : engine.Reaches {} session)
    (hbalanced : Balanced engine input prior past session buffer)
    {used left filled slice : Bytes} {answer : Step σ}
    (hinput : input = used ++ left)
    (hused : used.length = min (engine.totalIn session) input.length)
    (hbuffer : buffer = filled ++ slice)
    (hfilled : filled.length = min (engine.totalOut session) buffer.length)
    (hanswer : engine.step session left slice .partly = answer) :
    Balanced engine input prior (past ++ [⟨session, left, slice, .partly, answer⟩])
      answer.session (filled ++ answer.slice) := by
  rcases hhonest.step session hreaches left slice .partly answer hanswer with
    ⟨consumed, rest, covered, kept, written, hleft, hslice, hwritten, hin, hout⟩
  rcases hbalanced with ⟨hinLe, houtLe, hconsumed, hwrites, hkept⟩
  have hused' : engine.totalIn session = used.length := by omega
  have hfilled' : engine.totalOut session = filled.length := by omega
  have hcovered : written.length = covered.length := by
    have hlength := engine.length_slice session left slice .partly
    rw [hanswer, hwritten, hslice, List.length_append, List.length_append] at hlength
    omega
  have hconsumedStep : Exchange.consumed engine ⟨session, left, slice, .partly, answer⟩ =
      consumed := by
    rw [Exchange.consumed]
    dsimp only
    rw [hin, Nat.add_sub_cancel_left, hleft, List.take_left]
  have hwrittenStep : Exchange.written engine ⟨session, left, slice, .partly, answer⟩ =
      written := by
    rw [Exchange.written]
    dsimp only
    rw [hout, Nat.add_sub_cancel_left, hwritten, List.take_left]
  have hinput' : input = (used ++ consumed) ++ rest := by
    rw [hinput, hleft, List.append_assoc]
  have hbuffer' : filled ++ answer.slice = (filled ++ written) ++ kept := by
    rw [hwritten, List.append_assoc]
  constructor
  · rw [hin, hused', hinput', List.length_append, List.length_append]
    exact Nat.le_add_right _ _
  · rw [hout, hfilled', hbuffer', List.length_append, List.length_append]
    exact Nat.le_add_right _ _
  · rw [List.flatMap_append, List.flatMap_singleton, hconsumed, hconsumedStep, hin, hused']
    rw [← List.length_append, hinput', List.take_left, List.append_assoc, List.take_left]
  · rw [List.flatMap_append, List.flatMap_singleton, hwrites, hwrittenStep, hout, hfilled']
    rw [← List.length_append, hbuffer', List.take_left, hbuffer, List.take_left]
  · rw [hfilled', hbuffer, List.drop_left] at hkept
    have hprior : prior.drop (filled.length + written.length) = kept := by
      rw [← List.drop_drop, ← hkept, hslice, hcovered, List.drop_left]
    rw [hout, hfilled', hprior, ← List.length_append, hbuffer', List.drop_left]

theorem Exchanges.balanced (hhonest : engine.IsHonest {}) {more : List (Exchange σ)} {now : σ}
    {filled : Bytes}
    (hexchanges : Exchanges engine input session buffer more now filled)
    (hreaches : engine.Reaches {} session)
    (hbalanced : Balanced engine input prior past session buffer) :
    Balanced engine input prior (past ++ more) now filled := by
  induction hexchanges generalizing past with
  | nil =>
      rw [List.append_nil]
      exact hbalanced
  | @cons session _ _ _ left _ slice _ answer _ hinput hused hbuffer hfilled hanswer _ ih =>
      have hnext := hreaches.step left slice .partly
      rw [hanswer] at hnext
      have hstep := hbalanced.step hhonest hreaches hinput hused hbuffer hfilled hanswer
      have hall := ih hnext hstep
      rw [List.append_assoc] at hall
      exact hall

end Calls

end Inflate

section Calls

variable {σ : Type} {engine : Engine InflateSettings σ} {input buffer : Bytes}

theorem inflateWith_ends (hmonotone : engine.IsMonotone {}) (input buffer : Bytes) :
    ∃ run, inflateWith engine (Inflate.maxSteps ⟨input.length, buffer.length⟩) input buffer =
      some run :=
  (hmonotone.on input buffer).exists_run

theorem Inflate.Balanced.written_eq_buffer {prior : Bytes} {past : List (Exchange σ)} {session : σ}
    (hbalanced : Inflate.Balanced engine input prior past session buffer)
    (htotal : engine.totalOut session = buffer.length) :
    buffer = past.flatMap (Exchange.written engine) := by
  rw [hbalanced.written_eq, htotal, List.take_length]

end Calls

/--
A call on an honest engine ends, and after every step the account is balanced: the bytes
consumed so far are the input up to the total, the bytes written so far are the buffer up to
the total, and behind it the buffer is as it was.  If the call succeeds, the whole buffer was
written; if no session starts, the buffer is untouched.
-/
theorem inflateWith_lossless {σ : Type} {engine : Engine InflateSettings σ}
    (hhonest : engine.IsHonest {}) (input buffer : Bytes) :
    (∃ run, inflateWith engine (Inflate.maxSteps ⟨input.length, buffer.length⟩) input buffer =
      some run) ∧
    ∀ steps run, inflateWith engine steps input buffer = some run →
      ∃ recorded, inflateWith engine.recorded steps input buffer = some recorded ∧
        recorded.unrecorded = run ∧
        (∀ recording, recorded.session? = some (.ok recording) →
          ∃ session, engine.start {} = .ok session ∧
            (∀ past future, recording.exchanges = past ++ future →
              ∃ now filled, Inflate.Exchanges engine input session buffer past now filled ∧
                Inflate.Exchanges engine input now filled future recording.session run.buffer ∧
                Inflate.Balanced engine input buffer past now filled) ∧
            (run.outcome = .ok () →
              run.buffer = recording.exchanges.flatMap (Exchange.written engine) ∧
                engine.totalOut recording.session = buffer.length)) ∧
        ((∀ recording, recorded.session? ≠ some (.ok recording)) →
          run.outcome ≠ .ok () ∧ run.buffer = buffer) := by
  refine ⟨inflateWith_ends hhonest.isMonotone input buffer, ?_⟩
  intro steps run hrun
  rw [inflateWith_recorded, Option.map_eq_some_iff] at hrun
  rcases hrun with ⟨recorded, hrecorded, hrun⟩
  subst hrun
  refine ⟨recorded, hrecorded, rfl, ?_, inflateWith_not_started hrecorded⟩
  intro recording hsession
  rcases exchanges_of_inflateWith hrecorded hsession with
    ⟨session, front, last, hstart, hrecording, hexchanges, _, hverdict⟩
  subst hrecording
  have hbalanced : ∀ past now filled,
      Inflate.Exchanges engine input session buffer past now filled →
        Inflate.Balanced engine input buffer past now filled := by
    intro past now filled hpast
    exact hpast.balanced hhonest (.start hstart)
      (Inflate.balanced_start hhonest hstart input buffer)
  refine ⟨session, hstart, ?_, ?_⟩
  · intro past future hsplit
    have hboth := hexchanges
    rw [show front ++ [last] = past ++ future from hsplit, Inflate.Exchanges.append_iff] at hboth
    rcases hboth with ⟨now, filled, hpast, hfuture⟩
    exact ⟨now, filled, hpast, hfuture, hbalanced past now filled hpast⟩
  · intro houtcome
    have htotal := ((last.outcome_eq_ok_iff hverdict).mp houtcome).right
    refine ⟨?_, htotal⟩
    apply (hbalanced _ _ _ hexchanges).written_eq_buffer
    rw [htotal, hexchanges.length_eq]

/-!
## The decoder
-/

namespace Decoder

/-- An answer to a step on this input and room is counted by the totals. -/
structure Counts (session : Decoder) (input : Bytes) (room : Nat) (answer : Reply) : Prop where
  consumed : ∃ count, count ≤ input.length ∧ answer.session.totalIn = session.totalIn + count
  output_le : answer.output.length ≤ room
  totalOut_eq : answer.session.totalOut = session.totalOut + answer.output.length

section Counts

variable {session : Decoder} {input : Bytes} {room : Nat}

theorem counts_nothing (session : Decoder) (input : Bytes) (room : Nat) (conduct : Conduct)
    (result : Except Fault Status) :
    Counts session input room (reply session conduct [] result) where
  consumed := ⟨0, Nat.zero_le _, rfl⟩
  output_le := Nat.zero_le _
  totalOut_eq := rfl

theorem counts_deliver (session : Decoder) (input : Bytes) (room : Nat) (conduct : Conduct)
    (result : Except Fault Status) :
    Counts session input room
      (reply (session.deliver room).1 conduct (session.deliver room).2 result) := by
  have hlength := length_deliver session room
  constructor
  · exact ⟨0, Nat.zero_le _, rfl⟩
  · exact Nat.le_trans (Nat.le_of_eq hlength) (Nat.min_le_left _ _)
  · exact congrArg (session.totalOut + ·) hlength.symm

theorem Counts.of_totals {before : Decoder} {answer : Reply}
    (hcounts : Counts before input room answer)
    (hin : before.totalIn = session.totalIn) (hout : before.totalOut = session.totalOut) :
    Counts session input room answer := by
  rcases hcounts with ⟨hconsumed, hroom, htotal⟩
  rw [hin] at hconsumed
  rw [hout] at htotal
  exact ⟨hconsumed, hroom, htotal⟩

theorem read_counts (session : Decoder) (limit : Nat) (input : Bytes) :
    ∃ count, count ≤ input.length ∧ (session.read limit input).2 = input.drop count ∧
      (session.read limit input).1.totalIn = session.totalIn + count ∧
      (session.read limit input).1.totalOut = session.totalOut :=
  ⟨_, Nat.sub_le _ _, rfl, rfl, rfl⟩

theorem Counts.after_read {limit : Nat} {answer : Reply}
    (hcounts : Counts (session.read limit input).1 (session.read limit input).2 room answer) :
    Counts session input room answer := by
  rcases read_counts session limit input with ⟨count, hcount, hleft, hin, hout⟩
  rcases hcounts with ⟨⟨more, hmore, hconsumed⟩, hroom, htotal⟩
  rw [hleft, List.length_drop] at hmore
  exact ⟨⟨count + more, by omega, by omega⟩, hroom, by omega⟩

theorem Counts.after_deliver {answer : Reply}
    (hcounts : Counts (session.deliver room).1 input (room - (session.deliver room).2.length)
      answer) :
    Counts session input room
      { answer with output := (session.deliver room).2 ++ answer.output } := by
  rcases counts_deliver session input room .fresh (.ok .ok) with ⟨_, hdelivered, htotal⟩
  rcases hcounts with ⟨⟨more, hmore, hconsumed⟩, hroom, hout⟩
  have hdelivered' : (session.deliver room).2.length ≤ room := hdelivered
  have htotal' : (session.deliver room).1.totalOut =
      session.totalOut + (session.deliver room).2.length := htotal
  refine ⟨⟨more, hmore, hconsumed⟩, ?_, ?_⟩
  · rw [List.length_append]
    omega
  · rw [List.length_append]
    exact hout.trans (by omega)

theorem windows_counts (finish : Bool) (given : Bytes) (count : Nat) (session : Decoder)
    (left : Bytes) (room : Nat) :
    Counts session left room (windows finish given count session left room) := by
  induction count generalizing session left room with
  | zero => exact counts_nothing session left room session.conduct (.ok .ok)
  | succ count ih =>
      apply Counts.after_read
      rw [windows]
      generalize session.read session.windowEnd left = taken
      rcases taken with ⟨session, left⟩
      dsimp only
      split
      · exact counts_deliver session left room _ _
      · exact (ih _ left _).after_deliver

theorem resume_counts (finish : Bool) (session : Decoder) (input : Bytes) (room : Nat) :
    Counts session input room (session.resume finish input room) := by
  unfold resume
  split
  · exact windows_counts finish input _ session input room
  · exact counts_deliver session input room _ _

theorem direct_counts (session : Decoder) (input : Bytes) (room : Nat) :
    Counts session input room (session.direct input room) := by
  have hcounts : ∀ conduct result, Counts session input room (reply _ conduct _ result) :=
    fun conduct result =>
      (counts_deliver (read room { session with inflater := .initial true } input).1 _ room
        conduct result).after_read.of_totals rfl rfl
  rw [direct]
  dsimp only
  split
  · exact hcounts _ _
  · split
    · exact hcounts _ _
    · split
      · exact hcounts _ _
      · exact hcounts _ _

theorem step_counts (session : Decoder) (input : Bytes) (room : Nat) (flush : Flush) :
    Counts session input room (session.step input room flush) := by
  have hresume : ∀ finish conduct,
      Counts session input room
        (resume finish { session with conduct := conduct } input room) :=
    fun _ _ => (resume_counts _ _ input room).of_totals rfl rfl
  unfold step
  split
  · exact counts_nothing session input room _ _
  · exact counts_nothing session input room _ _
  · exact direct_counts session input room
  · exact hresume true .finishing
  · exact counts_nothing session input room _ _
  · exact hresume false .streaming

end Counts

theorem engine_isHonest : engine.IsHonest {} where
  start := by
    intro session hstart
    injection hstart with hstart
    rw [← hstart]
    exact ⟨rfl, rfl⟩
  step := by
    intro session _ input slice flush answer hanswer
    rcases step_counts session input slice.length flush with ⟨⟨count, hcount, hin⟩, hroom, hout⟩
    rw [← hanswer]
    refine ⟨input.take count, input.drop count,
      slice.take (session.step input slice.length flush).output.length,
      slice.drop (session.step input slice.length flush).output.length,
      (session.step input slice.length flush).output,
      (List.take_append_drop _ _).symm, (List.take_append_drop _ _).symm, ?_, ?_, hout⟩
    · exact congrArg (· ++ _) (List.take_of_length_le hroom)
    · rw [List.length_take, Nat.min_eq_left hcount]
      exact hin

end Decoder

/-- A stream cut behind the first of its two bytes fills half of the buffer and no more. -/
theorem inflateWith_cut_pair_balanced :
    Decoder.engine.IsHonest {} ∧
    ∃ (run : Run Decoder Unit) (recording : Recording Decoder),
      inflateWith Decoder.engine (Inflate.maxSteps ⟨8, 2⟩)
          [0x78, 0x01, 0x01, 0x02, 0x00, 0xfd, 0xff, 0x61] [0xaa, 0xbb] = some run ∧
      run.outcome = .error (.unexpectedEnd 2 1) ∧ run.buffer = [0x61, 0xbb] ∧
      recording.exchanges.length = 2 ∧
      Inflate.Balanced Decoder.engine [0x78, 0x01, 0x01, 0x02, 0x00, 0xfd, 0xff, 0x61] [0xaa, 0xbb]
        recording.exchanges recording.session run.buffer := by
  have hanswer : (inflateWith Decoder.engine.recorded (Inflate.maxSteps ⟨8, 2⟩)
      [0x78, 0x01, 0x01, 0x02, 0x00, 0xfd, 0xff, 0x61] [0xaa, 0xbb]).map (fun run =>
        (run.outcome, run.buffer,
          run.session?.map (Except.map (fun recording => recording.exchanges.length)))) =
      some (.error (.unexpectedEnd 2 1), [0x61, 0xbb], some (.ok 2)) := by
    decide +kernel
  rcases inflateWith_lossless Decoder.engine_isHonest
    [0x78, 0x01, 0x01, 0x02, 0x00, 0xfd, 0xff, 0x61] [0xaa, 0xbb] with ⟨⟨run, hrun⟩, hall⟩
  rcases hall (Inflate.maxSteps ⟨8, 2⟩) run hrun with ⟨recorded, hrecorded, hsame, hstarted, _⟩
  rw [hrecorded] at hanswer
  simp only [Option.map_some, Option.some.injEq, Prod.mk.injEq, Option.map_eq_some_iff] at hanswer
  rcases hanswer with ⟨houtcome, hbuffer, ended, hended, hcount⟩
  cases ended with
  | error fault => cases hcount
  | ok recording =>
      injection hcount with hcount
      rcases hstarted recording hended with ⟨session, _, hsteps, _⟩
      rcases hsteps recording.exchanges [] (List.append_nil _).symm with
        ⟨now, filled, _, hnone, hbalanced⟩
      cases hnone
      subst hsame
      exact ⟨Decoder.engine_isHonest, _, recording, hrun, houtcome, hbuffer, hcount, hbalanced⟩

end BoundedZlib
