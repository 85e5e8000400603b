import BoundedZlib.Decoder
import BoundedZlib.Proofs.BitReading
import BoundedZlib.Proofs.FullReading

/-!
# Steps of a decoder

A decoder that was never asked to finish stands where the bytes that it consumed
lead, however they were handed to it, and it has delivered the front of the
content that these bytes spell.  Every part of a step keeps it so.
-/

namespace BoundedZlib
namespace Decoder

/-- The decoder stands where these bytes lead, and has delivered these bytes of content. -/
structure Follows (session : Decoder) (consumed delivered : Bytes) : Prop where
  used : ∃ used, Bits.ofBytes consumed = used ++ session.unread ∧
    session.inflater.position = used.length ∧
    session.inflater.settleFully = Inflater.after used
  unread_lt : session.unread.length < 8
  totalIn_eq : session.totalIn = consumed.length
  totalOut_eq : session.totalOut = delivered.length
  delivered_prefix : delivered <+: session.inflater.content.toList

theorem initial_follows : initial.Follows [] [] where
  used := ⟨[], rfl, rfl, Inflater.settleFully_of_wantsBit rfl⟩
  unread_lt := by decide
  totalIn_eq := rfl
  totalOut_eq := rfl
  delivered_prefix := List.nil_prefix

section Parts

variable {session : Decoder} {consumed delivered : Bytes}

theorem Follows.with_conduct (hfollows : session.Follows consumed delivered) (conduct : Conduct) :
    Follows { session with conduct := conduct } consumed delivered :=
  ⟨hfollows.used, hfollows.unread_lt, hfollows.totalIn_eq, hfollows.totalOut_eq,
    hfollows.delivered_prefix⟩

/-!
## Reading on
-/

theorem split_rest {unread used rest : List Bool} {input : Bytes}
    (hunread : unread.length < 8)
    (hbits : unread ++ Bits.ofBytes input = used ++ rest) :
    ∃ taken left, input = taken ++ left ∧ taken.length = input.length - rest.length / 8 ∧
      unread ++ Bits.ofBytes taken = used ++ rest.take (rest.length % 8) ∧
      rest.length / 8 = left.length := by
  have hlength := congrArg List.length hbits
  rw [List.length_append, List.length_append, Bits.length_ofBytes] at hlength
  generalize hkept : rest.length / 8 = kept at *
  have hboth : (unread ++ Bits.ofBytes (input.take (input.length - kept))) ++
        Bits.ofBytes (input.drop (input.length - kept)) =
      (used ++ rest.take (rest.length % 8)) ++ rest.drop (rest.length % 8) := by
    rw [List.append_assoc, ← Bits.ofBytes_append, List.take_append_drop, List.append_assoc,
      List.take_append_drop, hbits]
  have hback : (Bits.ofBytes (input.drop (input.length - kept))).length =
      (rest.drop (rest.length % 8)).length := by
    rw [Bits.length_ofBytes, List.length_drop, List.length_drop]
    omega
  rcases List.append_inj' hboth hback with ⟨hfront, _⟩
  refine ⟨_, _, (List.take_append_drop (input.length - kept) input).symm, ?_, hfront, ?_⟩
  · rw [List.length_take]
    omega
  · rw [List.length_drop]
    omega

theorem read_follows (hfollows : session.Follows consumed delivered) {limit : Nat}
    {input left : Bytes} {next : Decoder}
    (hread : session.read limit input = (next, left)) :
    ∃ taken, input = taken ++ left ∧ next.Follows (consumed ++ taken) delivered ∧
      next.conduct = session.conduct ∧
      Inflater.Settled limit next.inflater ∧
      (next.inflater.wantsBit = true → left = [] ∧ next.unread = []) := by
  rcases hfollows with ⟨⟨used, hused, hposition, hafter⟩, hunread, hin, hout, hprefix⟩
  unfold read at hread
  generalize hrun : session.inflater.run limit (session.unread ++ Bits.ofBytes input) = run at hread
  rcases run with ⟨inflater, rest⟩
  rw [Prod.mk.injEq] at hread
  rcases hread with ⟨hnext, hleft⟩
  rcases Inflater.run_leads limit hrun with ⟨more, hbits, hleads, hsettled, hend⟩
  rcases split_rest hunread hbits with ⟨taken, others, hinput, htaken, hfront, hkept⟩
  have hleft' : left = others := by
    rw [← hleft, ← htaken, hinput, List.drop_left]
  subst hleft' hnext
  refine ⟨taken, hinput, ⟨⟨used ++ more, ?_, ?_, ?_⟩, ?_, ?_, hout, ?_⟩, rfl, hsettled, ?_⟩
  · rw [Bits.ofBytes_append, hused, List.append_assoc, hfront, List.append_assoc]
  · rw [hleads.position_eq, hposition, List.length_append]
  · rw [hleads.settleFully_eq, hafter, Inflater.after_append]
  · rw [List.length_take]
    omega
  · rw [List.length_append, ← hin, htaken]
  · exact hprefix.trans hleads.content_prefix
  · intro hwants
    rcases hend with hrest | hstops
    · rw [hrest, List.length_nil, Nat.zero_div] at hkept
      rw [hrest]
      exact ⟨List.length_eq_zero_iff.mp hkept.symm, rfl⟩
    · rw [hstops] at hwants
      exact Bool.noConfusion hwants

/-!
## Delivering
-/

theorem length_deliver (session : Decoder) (room : Nat) :
    (session.deliver room).2.length = min room session.waiting := by
  simp only [deliver, waiting, Array.length_toList, Array.size_extract]
  omega

theorem deliver_follows (hfollows : session.Follows consumed delivered) {room : Nat}
    {output : Bytes} {next : Decoder}
    (hdeliver : session.deliver room = (next, output)) :
    next.Follows consumed (delivered ++ output) ∧ output.length = min room session.waiting ∧
      next.inflater = session.inflater ∧ next.unread = session.unread ∧
      next.conduct = session.conduct := by
  rcases hfollows with ⟨hused, hunread, hin, hout, ⟨more, hmore⟩⟩
  have hlength := length_deliver session room
  rw [hdeliver] at hlength
  unfold deliver at hdeliver
  rw [Prod.mk.injEq] at hdeliver
  rcases hdeliver with ⟨hnext, houtput⟩
  have houtput' : output = more.take (min room session.waiting) := by
    rw [← houtput, Array.toList_extract, ← hmore, hout, List.extract_eq_take_drop, List.drop_left,
      Nat.add_sub_cancel_left]
  subst hnext
  refine ⟨⟨hused, hunread, hin, ?_, ?_⟩, hlength, rfl, rfl, rfl⟩
  · rw [List.length_append, hlength, ← hout]
  · rw [← hmore, houtput']
    exact List.prefix_append_right_inj delivered |>.mpr (List.take_prefix _ _)

end Parts

/-!
## Answers
-/

/--
An answer to a step on this input is true: the stream has ended, is malformed or
wants more bits if it says so.
-/
structure Answers (input : Bytes) (reply : Reply) : Prop where
  complete : reply.result = .ok .streamEnd → reply.session.isComplete = true
  stalled : reply.result = .ok .stalled →
    input = [] ∧ reply.session.inflater.wantsBit = true ∧ reply.session.unread = []
  fault : ∀ fault, reply.result = .error fault →
    fault = malformed ∧ reply.session.conduct = .broken
  bound : reply.session.conduct = .streaming ∨
    reply.session.conduct = .broken ∧ reply.session.inflater.hasFailed = true

theorem answers_ok {session : Decoder} {input output : Bytes} {status : Status}
    (hcomplete : status = .streamEnd → session.isComplete = true)
    (hstalled : status = .stalled →
      input = [] ∧ session.inflater.wantsBit = true ∧ session.unread = []) :
    Answers input (reply session .streaming output (.ok status)) where
  complete := by
    intro hresult
    injection hresult with hresult
    exact hcomplete hresult
  stalled := by
    intro hresult
    injection hresult with hresult
    exact hstalled hresult
  fault := by
    intro fault hresult
    cases hresult
  bound := Or.inl rfl

theorem answers_malformed {session : Decoder} {input output : Bytes}
    (hfailed : session.inflater.hasFailed = true) :
    Answers input (reply session .broken output (.error malformed)) where
  complete := by
    intro hresult
    cases hresult
  stalled := by
    intro hresult
    cases hresult
  fault := by
    intro fault hresult
    injection hresult with hresult
    exact ⟨hresult.symm, rfl⟩
  bound := Or.inr ⟨rfl, hfailed⟩

theorem verdict_cases {session : Decoder} {input left : Bytes} {room : Nat} {conduct : Conduct}
    {result : Except Fault Status}
    (hverdict : session.verdict input left room = some (conduct, result)) :
    (session.inflater.hasFailed = true ∧ conduct = .broken ∧ result = .error malformed) ∨
      ((session.inflater.wantsBit = true ∧ input = []) ∧ conduct = .streaming ∧
        result = .ok .stalled) ∨
      (session.isComplete = true ∧ conduct = .streaming ∧ result = .ok .streamEnd) ∨
      (session.inflater.hasFailed = false ∧ (session.inflater.wantsBit = true → input ≠ []) ∧
        session.isComplete = false ∧ conduct = .streaming ∧ result = .ok .ok) := by
  unfold verdict at hverdict
  split at hverdict
  · rename_i hfailed
    injection hverdict with hverdict
    injection hverdict with hconduct hresult
    exact Or.inl ⟨hfailed, hconduct.symm, hresult.symm⟩
  · rename_i hfailed
    apply Or.inr
    split at hverdict
    · rename_i hwants
      injection hverdict with hverdict
      injection hverdict with hconduct hresult
      rw [Bool.and_eq_true, List.isEmpty_iff] at hwants
      exact Or.inl ⟨hwants, hconduct.symm, hresult.symm⟩
    · rename_i hwants
      apply Or.inr
      split at hverdict
      · rename_i hcomplete
        injection hverdict with hverdict
        injection hverdict with hconduct hresult
        exact Or.inl ⟨hcomplete, hconduct.symm, hresult.symm⟩
      · rename_i hcomplete
        split at hverdict
        · injection hverdict with hverdict
          injection hverdict with hconduct hresult
          rw [Bool.and_eq_true, List.isEmpty_iff, not_and] at hwants
          exact Or.inr ⟨Bool.eq_false_iff.mpr hfailed, hwants, Bool.eq_false_iff.mpr hcomplete,
            hconduct.symm, hresult.symm⟩
        · cases hverdict

theorem verdict_none {session : Decoder} {input left : Bytes} {room : Nat}
    (hverdict : session.verdict input left room = none) :
    session.inflater.hasFailed = false ∧ session.inflater.isFinished = false ∧ left ≠ [] ∧
      room ≠ 0 ∧ session.waiting = 0 := by
  unfold verdict at hverdict
  split at hverdict
  · cases hverdict
  · split at hverdict
    · cases hverdict
    · split at hverdict
      · cases hverdict
      · split at hverdict
        · cases hverdict
        · rename_i hfailed _ _ hmore
          simp only [Bool.or_eq_true, List.isEmpty_iff, beq_iff_eq, bne_iff_ne, not_or] at hmore
          rcases hmore with ⟨⟨⟨hfinished, hleft⟩, hroom⟩, hwaiting⟩
          exact ⟨Bool.eq_false_iff.mpr hfailed, Bool.eq_false_iff.mpr hfinished, hleft, hroom,
            Decidable.not_not.mp hwaiting⟩

theorem answers_verdict {session : Decoder} {input left output : Bytes} {room : Nat}
    {conduct : Conduct} {result : Except Fault Status}
    (hverdict : session.verdict input left room = some (conduct, result))
    (hunread : session.inflater.wantsBit = true → session.unread = []) :
    Answers input (reply session conduct output result) := by
  rcases verdict_cases hverdict with
    ⟨hfailed, rfl, rfl⟩ | ⟨⟨hwants, hinput⟩, rfl, rfl⟩ | ⟨hcomplete, rfl, rfl⟩ |
      ⟨_, _, _, rfl, rfl⟩
  · exact answers_malformed hfailed
  · exact answers_ok Status.noConfusion (fun _ => ⟨hinput, hwants, hunread hwants⟩)
  · exact answers_ok (fun _ => hcomplete) Status.noConfusion
  · exact answers_ok Status.noConfusion Status.noConfusion

/-!
## Windows
-/

theorem windows_follows (input : Bytes) (count : Nat) {session : Decoder}
    {consumed delivered : Bytes}
    (hfollows : session.Follows consumed delivered)
    (hconduct : session.conduct = .streaming)
    (left : Bytes) (room : Nat) {answer : Reply}
    (hanswer : windows false input count session left room = answer) :
    ∃ taken rest, left = taken ++ rest ∧ answer.output.length ≤ room ∧
      answer.session.Follows (consumed ++ taken) (delivered ++ answer.output) ∧
      Answers input answer := by
  induction count generalizing session consumed delivered left room answer with
  | zero =>
      rw [windows, hconduct] at hanswer
      rw [← hanswer]
      refine ⟨[], left, rfl, Nat.zero_le _, ?_, answers_ok Status.noConfusion Status.noConfusion⟩
      rw [List.append_nil, show delivered ++ (reply session .streaming [] (.ok .ok)).output =
        delivered from List.append_nil delivered]
      exact hfollows.with_conduct .streaming
  | succ count ih =>
      rw [windows] at hanswer
      generalize hread : session.read session.windowEnd left = first at hanswer
      rcases first with ⟨read, others⟩
      rcases read_follows hfollows hread with ⟨taken, hleft, hread, hconduct', _, hwants⟩
      dsimp only at hanswer
      generalize hdeliver : read.deliver room = second at hanswer
      rcases second with ⟨next, output⟩
      rcases deliver_follows hread hdeliver with
        ⟨hnext, hlength, hinflater, hunread, hconduct''⟩
      have hroom : output.length ≤ room := by
        rw [hlength]
        exact Nat.min_le_left _ _
      dsimp only at hanswer
      rw [if_neg Bool.false_ne_true] at hanswer
      cases hverdict : next.verdict input others (room - output.length) with
      | some ending =>
          rcases ending with ⟨conduct, result⟩
          rw [hverdict] at hanswer
          rw [← hanswer]
          refine ⟨taken, others, hleft, hroom, hnext.with_conduct conduct,
            answers_verdict hverdict ?_⟩
          rw [hinflater, hunread]
          exact fun hbit => (hwants hbit).right
      | none =>
          rw [hverdict] at hanswer
          dsimp only at hanswer
          have hstreaming : next.conduct = .streaming :=
            hconduct''.trans (hconduct'.trans hconduct)
          rcases ih hnext hstreaming others (room - output.length) rfl with
            ⟨more, rest, hothers, hbound, hfollows', hanswers⟩
          refine ⟨taken ++ more, rest, ?_, ?_, ?_, ?_⟩
          · rw [hleft, hothers, List.append_assoc]
          · rw [← hanswer, List.length_append]
            omega
          · rw [← hanswer, ← List.append_assoc, ← List.append_assoc]
            exact hfollows'
          · rw [← hanswer]
            exact ⟨hanswers.complete, hanswers.stalled, hanswers.fault, hanswers.bound⟩

theorem lt_windowEnd (session : Decoder) :
    session.inflater.content.size < session.windowEnd := by
  unfold windowEnd window
  omega

theorem Follows.totalOut_of_waiting {session : Decoder} {consumed delivered : Bytes}
    (hfollows : session.Follows consumed delivered)
    (hwaiting : session.waiting = 0) :
    session.totalOut = session.inflater.content.size := by
  have hle := hfollows.delivered_prefix.length_le
  rw [← hfollows.totalOut_eq, Array.length_toList] at hle
  unfold waiting at hwaiting
  omega

/--
What a step comes to that reads on: the stream ends, in one way or another, or
its bytes run out, or the step consumes or delivers something.  Without room it
may have to leave something to be delivered.
-/
inductive Moves (before : Nat) (input : Bytes) (room : Nat) (answer : Reply) : Prop where
  | complete (hresult : answer.result = .ok .streamEnd)
  | failed (hfailed : answer.session.inflater.hasFailed = true)
  | starved (hinput : input = []) (hwants : answer.session.inflater.wantsBit = true)
      (hunread : answer.session.unread = [])
      (hwaiting : answer.session.waiting = 0 ∨ room = 0 ∨ 0 < answer.output.length)
  | consumed (hconsumed : before < answer.session.totalIn)
  | delivered (hdelivered : 0 < answer.output.length)
  | full (hroom : room = 0) (hwaiting : 0 < answer.session.waiting)

theorem windows_moves (count : Nat) {session : Decoder} {consumed delivered : Bytes}
    (hfollows : session.Follows consumed delivered)
    (hwaiting : session.waiting = 0)
    (input : Bytes) (room : Nat) {answer : Reply}
    (hanswer : windows false input (count + 1) session input room = answer) :
    Moves session.totalIn input room answer := by
  rw [windows] at hanswer
  generalize hread : session.read session.windowEnd input = first at hanswer
  rcases first with ⟨read, others⟩
  rcases read_follows hfollows hread with ⟨taken, hinput, hfollowsRead, _, hsettled, hwants⟩
  dsimp only at hanswer
  generalize hdeliver : read.deliver room = second at hanswer
  rcases second with ⟨next, output⟩
  rcases deliver_follows hfollowsRead hdeliver with ⟨hnext, hlength, hinflater, hunread, _⟩
  dsimp only at hanswer
  rw [if_neg Bool.false_ne_true] at hanswer
  have hwaitingNext : next.waiting = read.waiting - output.length := by
    rw [waiting, waiting, hinflater, hnext.totalOut_eq, hfollowsRead.totalOut_eq,
      List.length_append, Nat.sub_add_eq]
  -- What was decoded ahead is delivered, unless there is no room at all.
  have hahead : 0 < read.waiting → 0 < output.length ∨ room = 0 ∧ 0 < next.waiting := by
    omega
  have hfull : session.windowEnd ≤ read.inflater.content.size → 0 < read.waiting := by
    intro hfull
    have hlt := lt_windowEnd session
    have hout := hfollows.totalOut_of_waiting hwaiting
    rw [hfollows.totalOut_eq, ← hfollowsRead.totalOut_eq] at hout
    rw [waiting]
    omega
  cases hverdict : next.verdict input others (room - output.length) with
  | some ending =>
      rcases ending with ⟨conduct, result⟩
      rw [hverdict] at hanswer
      rw [← hanswer]
      have hmoves : 0 < read.waiting →
          Moves session.totalIn input room (reply next conduct output result) := by
        intro hpos
        rcases hahead hpos with hdelivered | ⟨hroom, hmore⟩
        · exact Moves.delivered hdelivered
        · exact Moves.full hroom hmore
      rcases verdict_cases hverdict with
        ⟨hfailed, rfl, rfl⟩ | ⟨⟨hbit, hempty⟩, rfl, rfl⟩ | ⟨_, rfl, rfl⟩ |
          ⟨hfailed, hbit, hcomplete, rfl, rfl⟩
      · exact Moves.failed hfailed
      · rw [hinflater] at hbit
        have hunread' := hunread.trans (hwants hbit).right
        rw [← hinflater] at hbit
        apply Moves.starved hempty hbit hunread'
        exact show next.waiting = 0 ∨ room = 0 ∨ 0 < output.length by omega
      · exact Moves.complete rfl
      · rw [hinflater] at hfailed hbit
        rcases hsettled with hbit' | hfinished | hfailed' | hlimit
        · have htaken : taken ≠ [] := by
            have hne := hbit hbit'
            rw [hinput, (hwants hbit').left, List.append_nil] at hne
            exact hne
          apply Moves.consumed
          have hpos := List.length_pos_iff.mpr htaken
          have hin := hnext.totalIn_eq
          rw [List.length_append, ← hfollows.totalIn_eq] at hin
          exact Nat.lt_of_lt_of_eq (Nat.lt_add_of_pos_right hpos) hin.symm
        · rw [isComplete, hinflater, hfinished, Bool.true_and, beq_eq_false_iff_ne] at hcomplete
          apply hmoves
          omega
        · rw [hfailed'] at hfailed
          exact Bool.noConfusion hfailed
        · exact hmoves (hfull hlimit)
  | none =>
      rw [hverdict] at hanswer
      rw [← hanswer]
      rcases verdict_none hverdict with ⟨hfailed, hfinished, hothers, hroom, _⟩
      rw [hinflater] at hfailed hfinished
      rcases hsettled with hbit | hfinished' | hfailed' | hlimit
      · exact absurd (hwants hbit).left hothers
      · rw [hfinished'] at hfinished
        exact Bool.noConfusion hfinished
      · rw [hfailed'] at hfailed
        exact Bool.noConfusion hfailed
      · apply Moves.delivered
        have hpos := hahead (hfull hlimit)
        rw [List.length_append]
        omega

/-!
## Steps that do not ask to finish
-/

/-- No step asked to finish, and a session that is broken read something malformed. -/
def Streams (session : Decoder) : Prop :=
  session.conduct = .fresh ∨ session.conduct = .streaming ∨
    session.conduct = .broken ∧ session.inflater.hasFailed = true

theorem Answers.streams {input : Bytes} {answer : Reply} (hanswers : Answers input answer) :
    answer.session.Streams :=
  Or.inr hanswers.bound

theorem step_eq_resume {session : Decoder} {flush : Flush}
    (hconduct : session.conduct = .fresh ∨ session.conduct = .streaming)
    (hflush : flush ≠ .finish) (input : Bytes) (room : Nat) :
    session.step input room flush =
      resume false { session with conduct := .streaming } input room := by
  unfold step
  rcases hconduct with hconduct | hconduct
  · rw [hconduct]
    cases flush with
    | finish => exact absurd rfl hflush
    | none => rfl
    | partly => rfl
    | sync => rfl
    | full => rfl
  · rw [hconduct]
    cases flush with
    | finish => exact absurd rfl hflush
    | none => rfl
    | partly => rfl
    | sync => rfl
    | full => rfl

theorem resume_follows {session : Decoder} {consumed delivered : Bytes}
    (hfollows : session.Follows consumed delivered)
    (hconduct : session.conduct = .streaming)
    (input : Bytes) (room : Nat) {answer : Reply}
    (hanswer : resume false session input room = answer) :
    ∃ taken rest, input = taken ++ rest ∧ answer.output.length ≤ room ∧
      answer.session.Follows (consumed ++ taken) (delivered ++ answer.output) ∧
      Answers input answer := by
  unfold resume at hanswer
  split at hanswer
  · exact windows_follows input _ hfollows hconduct input room hanswer
  · generalize hdeliver : session.deliver room = delivery at hanswer
    rcases delivery with ⟨next, output⟩
    rcases deliver_follows hfollows hdeliver with ⟨hnext, hlength, _, _, hconduct'⟩
    dsimp only at hanswer
    rw [hconduct', hconduct] at hanswer
    rw [← hanswer]
    refine ⟨[], input, rfl, ?_, ?_, ?_⟩
    · exact Nat.le_trans (Nat.le_of_eq hlength) (Nat.min_le_left _ _)
    · rw [List.append_nil]
      exact hnext.with_conduct .streaming
    · apply answers_ok
      · intro hstatus
        split at hstatus
        · rename_i hcomplete
          exact hcomplete
        · cases hstatus
      · intro hstatus
        split at hstatus
        · cases hstatus
        · cases hstatus

theorem step_follows {session : Decoder} {consumed delivered : Bytes} {flush : Flush}
    (hfollows : session.Follows consumed delivered)
    (hstreams : session.Streams)
    (hflush : flush ≠ .finish)
    (input : Bytes) (room : Nat) {answer : Reply}
    (hanswer : session.step input room flush = answer) :
    ∃ taken rest, input = taken ++ rest ∧ answer.output.length ≤ room ∧
      answer.session.Follows (consumed ++ taken) (delivered ++ answer.output) ∧
      Answers input answer := by
  rcases or_assoc.mpr hstreams with hconduct | ⟨hbroken, hfailed⟩
  · rw [step_eq_resume hconduct hflush] at hanswer
    exact resume_follows (hfollows.with_conduct .streaming) rfl input room hanswer
  · have hreply : answer = reply session .broken [] (.error malformed) := by
      rw [← hanswer]
      unfold step
      rw [hbroken]
    rw [hreply]
    refine ⟨[], input, rfl, Nat.zero_le _, ?_, answers_malformed hfailed⟩
    rw [List.append_nil, show delivered ++ (reply session .broken [] (.error malformed)).output =
      delivered from List.append_nil delivered]
    exact hfollows.with_conduct .broken

theorem step_moves {session : Decoder} {consumed delivered : Bytes} {flush : Flush}
    (hfollows : session.Follows consumed delivered)
    (hconduct : session.conduct = .fresh ∨ session.conduct = .streaming)
    (hflush : flush ≠ .finish)
    (input : Bytes) (room : Nat) {answer : Reply}
    (hanswer : session.step input room flush = answer) :
    Moves session.totalIn input room answer := by
  rw [step_eq_resume hconduct hflush] at hanswer
  have hfollows := hfollows.with_conduct .streaming
  unfold resume at hanswer
  split at hanswer
  · rename_i hwaiting
    exact windows_moves _ hfollows hwaiting input room hanswer
  · rename_i hwaiting
    generalize hdeliver : deliver room { session with conduct := .streaming } = delivery at hanswer
    rcases delivery with ⟨next, output⟩
    rcases deliver_follows hfollows hdeliver with ⟨hnext, hlength, hinflater, _, _⟩
    have hwaitingNext : next.waiting = session.waiting - output.length := by
      have hout := hfollows.totalOut_eq
      rw [waiting, waiting, hinflater, hnext.totalOut_eq, List.length_append, ← hout,
        Nat.sub_add_eq]
    have hpos : 0 < session.waiting := Nat.pos_of_ne_zero hwaiting
    have hlength' : output.length = min room session.waiting := hlength
    dsimp only at hanswer
    rw [← hanswer]
    by_cases hroom : room = 0
    · apply Moves.full hroom
      exact Nat.lt_of_lt_of_eq (show 0 < session.waiting - output.length by omega)
        hwaitingNext.symm
    · exact Moves.delivered (show 0 < output.length by omega)

end Decoder
end BoundedZlib
