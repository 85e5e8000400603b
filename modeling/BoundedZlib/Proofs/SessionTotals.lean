import BoundedZlib.Proofs.DecoderSteps

/-!
# Totals and ends of a session

Steps may be offered any bytes at all, whatever the steps before them left over, and any
slice to write to.  The totals count what all steps so far consumed and wrote, and the
decoder stands where the bytes that they consumed lead.  A session that has failed or has
ended stays so.
-/

namespace BoundedZlib
namespace Decoder

structure Request where
  input : Bytes
  slice : Bytes
  flush : Flush
deriving Repr, DecidableEq, Inhabited

structure Entry where
  session : Decoder
  request : Request
  answer : Reply

def Entry.consumed (entry : Entry) : Bytes :=
  entry.request.input.take (entry.answer.session.totalIn - entry.session.totalIn)

def Entry.written (entry : Entry) : Bytes :=
  entry.answer.output

def entry (session : Decoder) (request : Request) : Entry :=
  ⟨session, request, session.step request.input request.slice.length request.flush⟩

def history (session : Decoder) : List Request → List Entry
  | [] => []
  | request :: rest => session.entry request :: history (session.entry request).answer.session rest

theorem map_request_history (session : Decoder) (requests : List Request) :
    (history session requests).map Entry.request = requests := by
  induction requests generalizing session with
  | nil => rfl
  | cons request rest ih => exact congrArg (request :: ·) (ih _)

/-!
## What the totals count
-/

/--
The answer to a step counts, behind these steps, all that was consumed and written, and the
slice of the step holds what it wrote and, behind it, what it held before.
-/
structure Accounted (past : List Entry) (now : Entry) : Prop where
  step_eq : engine.step now.session now.request.input now.request.slice now.request.flush =
    ⟨now.answer.session, now.written ++ now.request.slice.drop now.written.length,
      now.answer.result⟩
  written_le : now.written.length ≤ now.request.slice.length
  consumed_le : now.answer.session.totalIn ≤ now.session.totalIn + now.request.input.length
  totalIn_le : now.session.totalIn ≤ now.answer.session.totalIn
  totalOut_le : now.session.totalOut ≤ now.answer.session.totalOut
  totalIn_eq :
    now.answer.session.totalIn = ((past ++ [now]).flatMap Entry.consumed).length
  totalOut_eq :
    now.answer.session.totalOut = ((past ++ [now]).flatMap Entry.written).length
  follows : now.answer.session.Follows ((past ++ [now]).flatMap Entry.consumed)
    ((past ++ [now]).flatMap Entry.written)

section Step

variable {session : Decoder} {consumed delivered : Bytes} {request : Request}

theorem entry_follows (hfollows : session.Follows consumed delivered) (hstreams : session.Streams)
    (hflush : request.flush ≠ .finish) :
    (session.entry request).answer.session.Follows (consumed ++ (session.entry request).consumed)
        (delivered ++ (session.entry request).written) ∧
      Answers request.input (session.entry request).answer ∧
      (session.entry request).written.length ≤ request.slice.length ∧
      (session.entry request).answer.session.totalIn ≤
        session.totalIn + request.input.length := by
  rcases step_follows hfollows hstreams hflush request.input request.slice.length rfl with
    ⟨taken, rest, hinput, hroom, hnext, hanswers⟩
  have hin := hnext.totalIn_eq
  rw [List.length_append, ← hfollows.totalIn_eq] at hin
  have hconsumed : (session.entry request).consumed = taken := by
    rw [Entry.consumed]
    dsimp only [entry]
    rw [hin, Nat.add_sub_cancel_left, hinput, List.take_left]
  rw [hconsumed]
  refine ⟨hnext, hanswers, hroom, Nat.le_trans (Nat.le_of_eq hin) ?_⟩
  rw [hinput, List.length_append]
  omega

theorem entry_accounted {past : List Entry}
    (hfollows : session.Follows (past.flatMap Entry.consumed) (past.flatMap Entry.written))
    (hstreams : session.Streams) (hflush : request.flush ≠ .finish) :
    Accounted past (session.entry request) := by
  rcases entry_follows hfollows hstreams hflush with ⟨hnext, _, hroom, hinput⟩
  rw [← List.flatMap_singleton Entry.consumed, ← List.flatMap_singleton Entry.written,
    ← List.flatMap_append, ← List.flatMap_append] at hnext
  have hin := hnext.totalIn_eq
  have hout := hnext.totalOut_eq
  constructor
  · exact congrArg (Step.mk _ · _) (congrArg (· ++ _) (List.take_of_length_le hroom))
  · exact hroom
  · exact hinput
  · rw [hin, List.flatMap_append, List.length_append]
    exact Nat.le_trans (Nat.le_of_eq hfollows.totalIn_eq) (Nat.le_add_right _ _)
  · rw [hout, List.flatMap_append, List.length_append]
    exact Nat.le_trans (Nat.le_of_eq hfollows.totalOut_eq) (Nat.le_add_right _ _)
  · exact hin
  · exact hout
  · exact hnext

end Step

theorem history_follows {session : Decoder} {consumed delivered : Bytes}
    {requests : List Request} {past future : List Entry} {now : Entry}
    (hfollows : session.Follows consumed delivered) (hstreams : session.Streams)
    (hflush : ∀ request ∈ requests, request.flush ≠ .finish)
    (hhistory : history session requests = past ++ now :: future) :
    ∃ (before : Decoder) (request : Request) (rest : List Request), now = before.entry request ∧
      future = history now.answer.session rest ∧
      before.Follows (consumed ++ past.flatMap Entry.consumed)
        (delivered ++ past.flatMap Entry.written) ∧
      before.Streams ∧ request.flush ≠ .finish ∧ ∀ request ∈ rest, request.flush ≠ .finish := by
  induction past generalizing session consumed delivered requests with
  | nil =>
      cases requests with
      | nil => cases hhistory
      | cons request rest =>
          rw [history, List.nil_append, List.cons.injEq] at hhistory
          rcases hhistory with ⟨rfl, rfl⟩
          rw [List.flatMap_nil, List.flatMap_nil, List.append_nil, List.append_nil]
          exact ⟨session, request, rest, rfl, rfl, hfollows, hstreams,
            hflush request List.mem_cons_self,
            fun later hmem => hflush later (List.mem_cons_of_mem _ hmem)⟩
  | cons first past ih =>
      cases requests with
      | nil => cases hhistory
      | cons request rest =>
          rw [history, List.cons_append, List.cons.injEq] at hhistory
          rcases hhistory with ⟨rfl, hhistory⟩
          have hstep := entry_follows hfollows hstreams (hflush request List.mem_cons_self)
          rw [List.flatMap_cons, List.flatMap_cons, ← List.append_assoc, ← List.append_assoc]
          exact ih hstep.left hstep.right.left.streams
            (fun later hmem => hflush later (List.mem_cons_of_mem _ hmem)) hhistory

/-!
## Ends
-/

/-- A step that ends like this changes none of the totals and writes nothing. -/
structure Entry.Rests (now : Entry) (result : Except Fault Status) : Prop where
  result_eq : now.answer.result = result
  written_eq : now.written = []
  consumed_eq : now.consumed = []
  totalIn_eq : now.answer.session.totalIn = now.session.totalIn
  totalOut_eq : now.answer.session.totalOut = now.session.totalOut

theorem rests_of_reply {session : Decoder} {request : Request} {conduct : Conduct}
    {result : Except Fault Status}
    (hreply : (session.entry request).answer = reply session conduct [] result) :
    (session.entry request).Rests result where
  result_eq := by rw [hreply, reply]
  written_eq := by rw [Entry.written, hreply, reply]
  consumed_eq := by
    rw [Entry.consumed, hreply]
    exact congrArg (request.input.take ·) (Nat.sub_self session.totalIn)
  totalIn_eq := by rw [hreply]; rfl
  totalOut_eq := by rw [hreply]; rfl

theorem history_rests {session : Decoder} (conduct : Conduct) {result : Except Fault Status}
    (hstep : ∀ before : Conduct, (before = session.conduct ∨ before = conduct) →
      ∀ request : Request, request.flush ≠ .finish →
        (entry { session with conduct := before } request).answer =
          reply session conduct [] result)
    {requests : List Request} (hflush : ∀ request ∈ requests, request.flush ≠ .finish) :
    ∀ later ∈ history session requests, later.Rests result := by
  have hall : ∀ before : Conduct, (before = session.conduct ∨ before = conduct) →
      ∀ later ∈ history { session with conduct := before } requests, later.Rests result := by
    induction requests with
    | nil =>
        intro before _ later hmem
        cases hmem
    | cons request rest ih =>
        intro before hbefore later hmem
        have hreply := hstep before hbefore request (hflush request List.mem_cons_self)
        rw [history, hreply, List.mem_cons] at hmem
        rcases hmem with rfl | hmem
        · exact @rests_of_reply { session with conduct := before } request conduct result hreply
        · exact ih (fun later hmem => hflush later (List.mem_cons_of_mem _ hmem)) conduct
            (Or.inr rfl) later hmem
  exact hall session.conduct (Or.inl rfl)

theorem history_of_broken {session : Decoder} (hbroken : session.conduct = .broken)
    {requests : List Request} (hflush : ∀ request ∈ requests, request.flush ≠ .finish) :
    ∀ later ∈ history session requests, later.Rests (.error malformed) := by
  apply history_rests .broken _ hflush
  intro before hbefore request _
  have hbefore' : before = .broken := by
    rcases hbefore with hbefore | hbefore
    · exact hbefore.trans hbroken
    · exact hbefore
  rw [hbefore']
  rfl

theorem run_of_isFinished {state : Inflater} (hfinished : state.isFinished = true) (limit : Nat)
    (bits : List Bool) :
    state.run limit bits = (state, bits) := by
  have hphase := Inflater.isFinished_iff.mp hfinished
  have hsettle : ∀ atHand, state.settle limit atHand = state := by
    intro atHand
    have hwrite : state.write limit = state := by
      unfold Inflater.write
      rw [hphase]
    rw [Inflater.settle, hwrite]
    unfold Inflater.unhold
    rw [hphase]
  have hwants : state.wantsBit = false := by
    unfold Inflater.wantsBit
    rw [hphase]
  unfold Inflater.run
  cases bits with
  | nil => rw [Inflater.runFrom, hsettle]
  | cons bit rest =>
      rw [Inflater.runFrom, hsettle]
      dsimp only
      rw [hwants, if_neg Bool.false_ne_true]

section Complete

variable {session : Decoder}

theorem read_of_isFinished (hfinished : session.inflater.isFinished = true)
    (hunread : session.unread.length < 8) (limit : Nat) (input : Bytes) :
    session.read limit input = (session, input) := by
  have hlength : (session.unread ++ Bits.ofBytes input).length =
      session.unread.length + 8 * input.length := by
    rw [List.length_append, Bits.length_ofBytes]
  have hwhole : (session.unread ++ Bits.ofBytes input).length / 8 = input.length := by
    omega
  have hpart : (session.unread ++ Bits.ofBytes input).length % 8 = session.unread.length := by
    omega
  unfold read
  rw [run_of_isFinished hfinished]
  dsimp only
  rw [hwhole, hpart, Nat.sub_self, List.take_left]
  rfl

theorem deliver_of_waiting (hwaiting : session.waiting = 0) (room : Nat) :
    session.deliver room = (session, []) := by
  have houtput := length_deliver session room
  rw [hwaiting, Nat.min_zero, List.length_eq_zero_iff] at houtput
  have hsession : (session.deliver room).1 = session := by
    rw [deliver, hwaiting, Nat.min_zero, Nat.add_zero]
  rw [← Prod.mk.eta (p := session.deliver room), hsession, houtput]

theorem verdict_of_isComplete (hcomplete : session.isComplete = true) (input left : Bytes)
    (room : Nat) :
    session.verdict input left room = some (.streaming, .ok .streamEnd) := by
  have hfinished := hcomplete
  rw [isComplete, Bool.and_eq_true] at hfinished
  have hwants : session.inflater.wantsBit = false := by
    unfold Inflater.wantsBit
    rw [Inflater.isFinished_iff.mp hfinished.left]
  rw [verdict, Inflater.hasFailed_of_isFinished hfinished.left, if_neg Bool.false_ne_true, hwants,
    Bool.false_and, if_neg Bool.false_ne_true, if_pos hcomplete]

theorem resume_of_isComplete (hcomplete : session.isComplete = true)
    (hunread : session.unread.length < 8) (input : Bytes) (room : Nat) :
    session.resume false input room = reply session .streaming [] (.ok .streamEnd) := by
  have hboth := hcomplete
  rw [isComplete, Bool.and_eq_true, beq_iff_eq] at hboth
  rcases hboth with ⟨hfinished, hwaiting⟩
  rw [resume, if_pos hwaiting, windows, read_of_isFinished hfinished hunread]
  dsimp only
  rw [deliver_of_waiting hwaiting]
  dsimp only
  rw [if_neg Bool.false_ne_true, verdict_of_isComplete hcomplete]

theorem step_of_isComplete (hcomplete : session.isComplete = true)
    (hunread : session.unread.length < 8)
    (hconduct : session.conduct = .fresh ∨ session.conduct = .streaming) {flush : Flush}
    (hflush : flush ≠ .finish) (input : Bytes) (room : Nat) :
    session.step input room flush = reply session .streaming [] (.ok .streamEnd) := by
  have hstreaming : isComplete { session with conduct := .streaming } = true := hcomplete
  rw [step_eq_resume hconduct hflush]
  exact resume_of_isComplete hstreaming hunread input room

end Complete

theorem history_of_isComplete {session : Decoder} (hcomplete : session.isComplete = true)
    (hunread : session.unread.length < 8)
    (hconduct : session.conduct = .fresh ∨ session.conduct = .streaming)
    {requests : List Request} (hflush : ∀ request ∈ requests, request.flush ≠ .finish) :
    ∀ later ∈ history session requests, later.Rests (.ok .streamEnd) := by
  apply history_rests .streaming _ hflush
  intro before hbefore request hrequest
  have hbefore' : before = .fresh ∨ before = .streaming := by
    rcases hbefore with hbefore | hbefore
    · rw [hbefore]
      exact hconduct
    · exact Or.inr hbefore
  have hcomplete' : isComplete { session with conduct := before } = true := hcomplete
  exact step_of_isComplete hcomplete' hunread hbefore' hrequest request.input request.slice.length

/--
However a session is stepped that is never asked to finish, its totals count all that its
steps consumed and wrote.  Once it has failed every later step fails the same way, and once
it has told the end every later step tells it, and neither consumes or writes anything.
-/
theorem session_totals_and_ends {requests : List Request}
    (hflush : ∀ request ∈ requests, request.flush ≠ .finish) :
    (history initial requests).map Entry.request = requests ∧
    ∀ past now future, history initial requests = past ++ now :: future →
      Accounted past now ∧
      (∀ fault, now.answer.result = .error fault →
        (∃ message, fault = .data message) ∧ ∀ later ∈ future, later.Rests (.error fault)) ∧
      (now.answer.result = .ok .streamEnd →
        ∀ later ∈ future, later.Rests (.ok .streamEnd)) := by
  refine ⟨map_request_history initial requests, ?_⟩
  intro past now future hhistory
  rcases history_follows initial_follows (Or.inl rfl) hflush hhistory with
    ⟨before, request, rest, rfl, rfl, hfollows, hstreams, hrequest, hrest⟩
  rw [List.nil_append, List.nil_append] at hfollows
  rcases entry_follows hfollows hstreams hrequest with ⟨hnext, hanswers, _, _⟩
  refine ⟨entry_accounted hfollows hstreams hrequest, ?_, ?_⟩
  · intro fault hresult
    rcases hanswers.fault fault hresult with ⟨rfl, hbroken⟩
    exact ⟨⟨_, rfl⟩, history_of_broken hbroken hrest⟩
  · intro hresult
    have hcomplete := hanswers.complete hresult
    apply history_of_isComplete hcomplete hnext.unread_lt _ hrest
    rcases hanswers.bound with hstreaming | ⟨_, hfailed⟩
    · exact Or.inr hstreaming
    · rw [isComplete, Bool.and_eq_true] at hcomplete
      rw [Inflater.hasFailed_of_isFinished hcomplete.left] at hfailed
      exact Bool.noConfusion hfailed

def piecesAndMore : List Request :=
  [⟨[0x78, 0x01, 0x01, 0x01, 0x00, 0xfe, 0xff], [0xaa, 0xbb], .partly⟩,
    ⟨[0x61, 0x00, 0x62, 0x00, 0x62, 0x99], [0xaa, 0xbb], .partly⟩,
    ⟨[0x78, 0x01], [0xbb], .sync⟩]

/-- The second step ends the stream with its fifth byte, and the third does nothing. -/
theorem piecesAndMore_totals :
    ∃ past now future, history initial piecesAndMore = past ++ now :: future ∧
      now.answer.session.totalIn = 12 ∧ now.written = [0x61] ∧ future.length = 1 ∧
      Accounted past now ∧ ∀ later ∈ future, later.Rests (.ok .streamEnd) := by
  have hresults : (history initial piecesAndMore).map
      (fun now => (now.answer.result, now.answer.session.totalIn, now.written)) =
        [(.ok .ok, 7, []), (.ok .streamEnd, 12, [0x61]), (.ok .streamEnd, 12, [])] := by
    decide +kernel
  have hflush : ∀ request ∈ piecesAndMore, request.flush ≠ .finish := by
    decide
  rcases session_totals_and_ends hflush with ⟨_, hall⟩
  rcases List.map_eq_cons_iff.mp hresults with ⟨first, rest, hhistory, _, hrest⟩
  rcases List.map_eq_cons_iff.mp hrest with ⟨now, future, rfl, hnow, hfuture⟩
  rw [Prod.mk.injEq, Prod.mk.injEq] at hnow
  rcases hnow with ⟨hresult, hin, hwritten⟩
  have hcount := congrArg List.length hfuture
  rw [List.length_map] at hcount
  rcases hall [first] now future hhistory with ⟨haccounted, _, hend⟩
  exact ⟨[first], now, future, hhistory, hin, hwritten, hcount, haccounted, hend hresult⟩

end Decoder
end BoundedZlib
