import BoundedZlib.Proofs.DecoderSessions
import BoundedZlib.Proofs.Language
import BoundedZlib.Proofs.WritingSessions

/-!
# Flush points

Whatever steps an encoder session makes, after each one that flushes a new
decoder session finds all of the input so far in the output so far.
-/

namespace BoundedZlib

/-!
## Decoding a stream that may not be ended
-/

namespace Decoder

/--
Whatever way a new session is given these bytes without being asked to finish,
it does not fail and delivers nothing but this content, and all of it if it makes
enough steps that are offered something.
-/
def Delivers (stream content : Bytes) : Prop :=
  ∀ offers : List Offer, (∀ offer ∈ offers, offer.flush ≠ .finish) →
    (∀ fault, (course stream offers).result? ≠ some (.error fault)) ∧
    (course stream offers).delivered <+: content ∧
    ((∀ offer ∈ offers, offer.Productive) → stream.length + content.length + 1 ≤ offers.length →
      (course stream offers).delivered = content)

theorem delivers_of_after {stream content : Bytes}
    (hsound : (Inflater.after (Bits.ofBytes stream)).hasFailed = false)
    (hcontent : (Inflater.after (Bits.ofBytes stream)).content.toList = content) :
    Delivers stream content := by
  intro offers hflush
  have hreading : (course stream offers).session.Reading stream
      (course stream offers).delivered := course_reading hflush
  have hdelivered := hreading.delivered_prefix
  rw [hcontent] at hdelivered
  refine ⟨?_, hdelivered, ?_⟩
  · intro fault hresult
    have hfailed := ((course_answers hflush).right fault hresult).right
    rw [hreading.after_of_hasFailed hfailed, hfailed] at hsound
    exact Bool.noConfusion hsound
  · intro hproductive hlength
    rcases course_progress hsound hflush hproductive with ⟨front, back, hoffers, hall, _⟩ | hmany
    · have hmore : (course stream front).delivered <+: (course stream (front ++ back)).delivered :=
        delivered_prefix_append back
      rw [← hoffers, hall, hcontent] at hmore
      exact hdelivered.eq_of_length_le hmore.length_le
    · have hin := hreading.totalIn_le
      have hout := hreading.totalOut_le
      have hsize : (Inflater.after (Bits.ofBytes stream)).content.size = content.length := by
        rw [← hcontent, Array.length_toList]
      omega

theorem delivers_of_openStream {stream content : Bytes}
    (hstream : Format.OpenStream (Bits.ofBytes stream) content) :
    Delivers stream content := by
  have hafter := Inflater.after_openStream hstream []
  rw [List.append_nil, Inflater.feedFully_nil] at hafter
  apply delivers_of_after
  · rw [hafter]
    rfl
  · rw [hafter]
    rfl

theorem delivers_of_stream {stream content : Bytes} (hstream : Format.Stream stream content) :
    Delivers stream content := by
  have hafter := Inflater.after_stream hstream []
  rw [List.append_nil] at hafter
  apply delivers_of_after
  · rw [hafter]
    rfl
  · rw [hafter]
    rfl

end Decoder

namespace Encoder

/-!
## Courses of steps
-/

structure Request where
  input : Bytes
  room : Nat
  flush : Flush
deriving Repr, DecidableEq, Inhabited

def Request.Finishes (request : Request) : Prop :=
  0 < request.room ∧ request.flush = .finish

instance (request : Request) : Decidable request.Finishes :=
  inferInstanceAs (Decidable (_ ∧ _))

/-- What a session came to, with all that it has consumed and delivered. -/
structure Course where
  session : Encoder
  consumed : Bytes
  delivered : Bytes

def Course.answer (course : Course) (request : Request) : Reply :=
  course.session.step request.input request.room request.flush

def Course.next (course : Course) (request : Request) : Course :=
  let answer := course.answer request
  ⟨answer.session,
    course.consumed ++ request.input.take (answer.session.totalIn - course.session.totalIn),
    course.delivered ++ answer.output⟩

def course (session : Encoder) (requests : List Request) : Course :=
  requests.foldl Course.next ⟨session, [], []⟩

def Course.Ample (course : Course) (request : Request) : Prop :=
  (course.next request).session.queue = []

def Course.AllAmple : Course → List Request → Prop
  | _, [] => True
  | course, request :: rest =>
      (request.room = 0 ∨ course.Ample request) ∧ AllAmple (course.next request) rest

instance (course : Course) (request : Request) : Decidable (course.Ample request) :=
  inferInstanceAs (Decidable (_ = _))

instance Course.decidableAllAmple :
    (course : Course) → (requests : List Request) → Decidable (course.AllAmple requests)
  | _, [] => inferInstanceAs (Decidable True)
  | course, request :: rest =>
      have := decidableAllAmple (course.next request) rest
      inferInstanceAs (Decidable ((request.room = 0 ∨ course.Ample request) ∧
        AllAmple (course.next request) rest))

section Course

variable {level : Level} {reached : Course} {request : Request} {requests : List Request}

theorem course_append_request (session : Encoder) (requests : List Request) (request : Request) :
    course session (requests ++ [request]) = (course session requests).next request :=
  List.foldl_append

theorem Course.allAmple_append_request (reached : Course) :
    reached.AllAmple (requests ++ [request]) ↔
      reached.AllAmple requests ∧
        (request.room = 0 ∨ (requests.foldl Course.next reached).Ample request) := by
  induction requests generalizing reached with
  | nil => simp [AllAmple]
  | cons first rest ih =>
      rw [List.cons_append, AllAmple, AllAmple, ih, List.foldl_cons, and_assoc]

theorem Course.next_of_idle {result : Except Fault Status}
    (hidle : reached.answer request = ⟨reached.session, [], result⟩) :
    reached.next request = reached := by
  rw [next, hidle]
  simp

theorem Course.answer_of_no_room (hroom : request.room = 0) :
    reached.answer request = ⟨reached.session, [], .ok .stalled⟩ := by
  rw [answer, hroom]
  exact step_no_room _ _ _

theorem Course.answer_of_closed (hroom : 0 < request.room)
    (hclosed : reached.session.closed = true)
    (hqueue : reached.session.queue = []) :
    reached.answer request = ⟨reached.session, [],
      .ok (if request.flush = .finish then .streamEnd else .stalled)⟩ :=
  step_closed _ _ hroom hclosed hqueue

theorem Unclosed.content_extend {session : Encoder} {delivered input : Bytes}
    (hunclosed : Unclosed level session delivered input) (more : Bytes) (flush : Flush) :
    (session.extend more flush).content.toList = input ++ more := by
  by_cases hflush : flush = .finish
  · rw [hflush]
    exact (hunclosed.finish more).left.content_eq
  · exact (hunclosed.extend more hflush).left.content_eq

theorem Unclosed.totalIn_answer
    (hunclosed : Unclosed level reached.session reached.delivered reached.consumed)
    (hroom : 0 < request.room) :
    (reached.answer request).session.totalIn = reached.session.totalIn + request.input.length := by
  have hbefore := congrArg List.length hunclosed.content_eq
  have hafter := congrArg List.length (hunclosed.content_extend request.input request.flush)
  rw [List.length_append, ← hbefore, Array.length_toList, Array.length_toList] at hafter
  rw [Course.answer, step_unclosed _ _ hroom hunclosed.closed]
  exact hafter

theorem Unclosed.next_eq
    (hunclosed : Unclosed level reached.session reached.delivered reached.consumed)
    (hroom : 0 < request.room) :
    reached.next request =
      ⟨((reached.session.extend request.input request.flush).deliver request.room).1,
        reached.consumed ++ request.input,
        reached.delivered ++
          ((reached.session.extend request.input request.flush).deliver request.room).2⟩ := by
  have htotal := hunclosed.totalIn_answer hroom
  rw [Course.next, htotal, Nat.add_sub_cancel_left, List.take_length, Course.answer,
    step_unclosed _ _ hroom hunclosed.closed]

theorem Unclosed.next_openStream
    (hunclosed : Unclosed level reached.session reached.delivered reached.consumed)
    (hroom : 0 < request.room)
    (hflush : request.flush ≠ .none ∧ request.flush ≠ .finish)
    (hample : reached.Ample request) :
    Format.OpenStream (Bits.ofBytes (reached.next request).delivered)
      (reached.next request).consumed := by
  rw [Course.Ample] at hample
  rw [hunclosed.next_eq hroom] at hample ⊢
  have hstream := (hunclosed.extend request.input hflush.right).right hflush.left
  rw [← deliver_of_queue hample] at hstream
  exact hstream

theorem Unclosed.next_unclosed
    (hunclosed : Unclosed level reached.session reached.delivered reached.consumed)
    (hroom : 0 < request.room)
    (hflush : request.flush ≠ .finish) :
    Unclosed level (reached.next request).session (reached.next request).delivered
      (reached.next request).consumed := by
  rw [hunclosed.next_eq hroom]
  exact (hunclosed.extend request.input hflush).left.deliver request.room

theorem Unclosed.next_closed
    (hunclosed : Unclosed level reached.session reached.delivered reached.consumed)
    (hroom : 0 < request.room)
    (hflush : request.flush = .finish) :
    Closed level (reached.next request).session (reached.next request).delivered
      (reached.next request).consumed := by
  rw [hunclosed.next_eq hroom, hflush]
  exact (hunclosed.finish request.input).left.deliver request.room

def Finished (requests : List Request) : Prop :=
  ∃ request ∈ requests, request.Finishes

theorem finished_append_request :
    Finished (requests ++ [request]) ↔ Finished requests ∨ request.Finishes := by
  simp only [Finished, List.mem_append, List.mem_singleton, or_and_right, exists_or,
    exists_eq_left]

/-- Where a session stands after these steps, each with no room or with room for all. -/
structure Course.Stands (level : Level) (requests : List Request) (reached : Course) : Prop where
  unclosed : ¬ Finished requests →
    Unclosed level reached.session reached.delivered reached.consumed
  closed : Finished requests →
    Closed level reached.session reached.delivered reached.consumed
  queue : reached.session.queue = []

theorem Course.Stands.answer_of_finished (hstands : reached.Stands level requests)
    (hroom : 0 < request.room)
    (hfinished : Finished requests) :
    reached.answer request = ⟨reached.session, [],
      .ok (if request.flush = .finish then .streamEnd else .stalled)⟩ :=
  Course.answer_of_closed hroom (hstands.closed hfinished).closed hstands.queue

theorem Course.Stands.stream (hstands : reached.Stands level requests)
    (hfinished : Finished requests) :
    Format.Stream reached.delivered reached.consumed := by
  have hstream := (hstands.closed hfinished).stream
  rw [hstands.queue, List.append_nil] at hstream
  exact hstream

theorem Course.Stands.next (hstands : reached.Stands level requests)
    (hample : request.room = 0 ∨ reached.Ample request) :
    (reached.next request).Stands level (requests ++ [request]) := by
  rcases Nat.eq_zero_or_pos request.room with hnone | hroom
  · -- Nothing happens, and nothing is finished by it.
    have hsame : Finished (requests ++ [request]) ↔ Finished requests :=
      finished_append_request.trans
        (or_iff_left fun hfinishes => Nat.ne_of_gt hfinishes.left hnone)
    rw [Course.next_of_idle (Course.answer_of_no_room hnone)]
    exact ⟨fun hopen => hstands.unclosed fun hfinished => hopen (hsame.mpr hfinished),
      fun hfinished => hstands.closed (hsame.mp hfinished), hstands.queue⟩
  · by_cases hfinished : Finished requests
    · rw [Course.next_of_idle (hstands.answer_of_finished hroom hfinished)]
      exact ⟨fun hopen => absurd (finished_append_request.mpr (Or.inl hfinished)) hopen,
        fun _ => hstands.closed hfinished, hstands.queue⟩
    · have hunclosed := hstands.unclosed hfinished
      have hqueue : (reached.next request).session.queue = [] :=
        hample.resolve_left (Nat.ne_of_gt hroom)
      by_cases hflush : request.flush = .finish
      · exact ⟨fun hopen =>
            absurd (finished_append_request.mpr (Or.inr ⟨hroom, hflush⟩)) hopen,
          fun _ => hunclosed.next_closed hroom hflush, hqueue⟩
      · refine ⟨fun _ => hunclosed.next_unclosed hroom hflush, ?_, hqueue⟩
        intro hboth
        rcases finished_append_request.mp hboth with hbefore | hlast
        · exact absurd hbefore hfinished
        · exact absurd hlast.right hflush

theorem course_stands (level : Level)
    (hample : Course.AllAmple ⟨initial level, [], []⟩ requests) :
    (course (initial level) requests).Stands level requests := by
  induction requests using List.reverseRecOn with
  | nil =>
      refine ⟨fun _ => Or.inl ⟨rfl, rfl, rfl⟩, ?_, rfl⟩
      intro hfinished
      rcases hfinished with ⟨earlier, hearlier, _⟩
      cases hearlier
  | append_singleton requests request ih =>
      rw [Course.allAmple_append_request] at hample
      rw [course_append_request]
      exact (ih hample.left).next hample.right

end Course

/-!
## Every flush point
-/

/--
At any level, after any steps: a step without room changes nothing, one before the
end takes all of its input and can be decoded if it flushes, and one after the end
of the stream only says so.
-/
theorem decodable_at_flush_points (level : Level) :
    ∃ session, start { level := level } = .ok session ∧
      ∀ (earlier : List Request) (request : Request),
        Course.AllAmple ⟨session, [], []⟩ (earlier ++ [request]) →
        let before := course session earlier
        let answer := before.session.step request.input request.room request.flush
        let after := course session (earlier ++ [request])
        (request.room = 0 →
          answer = ⟨before.session, [], .ok .stalled⟩ ∧ after = before) ∧
        (0 < request.room → (∀ other ∈ earlier, ¬ other.Finishes) →
          answer.session.totalIn = before.session.totalIn + request.input.length ∧
          after.consumed = before.consumed ++ request.input ∧
          after.delivered = before.delivered ++ answer.output ∧
          (request.flush ≠ .none → Decoder.Delivers after.delivered after.consumed) ∧
          (request.flush = .finish → Format.Stream after.delivered after.consumed)) ∧
        (0 < request.room → (∃ other ∈ earlier, other.Finishes) →
          answer = ⟨before.session, [],
            .ok (if request.flush = .finish then .streamEnd else .stalled)⟩ ∧
          after = before ∧ Format.Stream after.delivered after.consumed) := by
  refine ⟨initial level, rfl, ?_⟩
  intro earlier request hall
  rcases (Course.allAmple_append_request _).mp hall with ⟨hearlier, hample⟩
  have hstands := course_stands level hearlier
  have hnext := hstands.next hample
  rw [← course] at hample
  dsimp only
  rw [course_append_request]
  generalize course (initial level) earlier = before at hstands hnext hample
  refine ⟨?_, ?_, ?_⟩
  · intro hnone
    have hanswer : before.answer request = ⟨before.session, [], .ok .stalled⟩ :=
      Course.answer_of_no_room hnone
    exact ⟨hanswer, Course.next_of_idle hanswer⟩
  · intro hroom hopen
    have hunfinished : ¬ Finished earlier := by
      intro hfinished
      rcases hfinished with ⟨other, hmem, hfinishes⟩
      exact hopen other hmem hfinishes
    have hunclosed := hstands.unclosed hunfinished
    have hstream (hflush : request.flush = .finish) :
        Format.Stream (before.next request).delivered (before.next request).consumed :=
      hnext.stream (finished_append_request.mpr (Or.inr ⟨hroom, hflush⟩))
    refine ⟨hunclosed.totalIn_answer hroom, ?_, rfl, ?_, hstream⟩
    · rw [hunclosed.next_eq hroom]
    · intro hflush
      by_cases hfinish : request.flush = .finish
      · exact Decoder.delivers_of_stream (hstream hfinish)
      · exact Decoder.delivers_of_openStream (hunclosed.next_openStream hroom ⟨hflush, hfinish⟩
          (hample.resolve_left (Nat.ne_of_gt hroom)))
  · intro hroom hfinished
    have hanswer := hstands.answer_of_finished hroom hfinished
    exact ⟨hanswer, Course.next_of_idle hanswer,
      hnext.stream (finished_append_request.mpr (Or.inl hfinished))⟩

/--
Three steps, of which the second one has no room and the third one flushes, and a
step after the end of a stream.
-/
theorem decodable_after_sync :
    Decoder.Delivers [0x78, 0x9c, 0x62, 0x64, 0x62, 0x86, 0x23, 0x00, 0x00, 0x00, 0x00, 0xff, 0xff]
        [1, 2, 3, 1, 2, 3, 1, 2, 3, 1, 2, 3] ∧
      ((course (initial .balanced) [⟨[1], 20, .finish⟩]).session.step [2] 9 .finish).result =
        .ok .streamEnd := by
  rcases decodable_at_flush_points .balanced with ⟨session, hstart, hall⟩
  have hnew : initial .balanced = session := Except.ok.inj hstart
  rw [← hnew] at hall
  constructor
  · have hsteps := (hall [⟨[1, 2, 3], 20, .none⟩, ⟨[9], 0, .sync⟩]
      ⟨[1, 2, 3, 1, 2, 3, 1, 2, 3], 20, .sync⟩ (by decide +kernel)).right.left (by decide)
      (by decide)
    have hdecodes := hsteps.right.right.right.left (by decide)
    have hdelivered : (course (initial .balanced) [⟨[1, 2, 3], 20, .none⟩, ⟨[9], 0, .sync⟩,
        ⟨[1, 2, 3, 1, 2, 3, 1, 2, 3], 20, .sync⟩]).delivered =
          [0x78, 0x9c, 0x62, 0x64, 0x62, 0x86, 0x23, 0x00, 0x00, 0x00, 0x00, 0xff, 0xff] := by
      decide +kernel
    have hconsumed : (course (initial .balanced) [⟨[1, 2, 3], 20, .none⟩, ⟨[9], 0, .sync⟩,
        ⟨[1, 2, 3, 1, 2, 3, 1, 2, 3], 20, .sync⟩]).consumed =
          [1, 2, 3, 1, 2, 3, 1, 2, 3, 1, 2, 3] := by
      decide +kernel
    rw [← hdelivered, ← hconsumed]
    exact hdecodes
  · have hsteps := (hall [⟨[1], 20, .finish⟩] ⟨[2], 9, .finish⟩ (by decide +kernel)).right.right
      (by decide) ⟨⟨[1], 20, .finish⟩, List.mem_cons_self, by decide, rfl⟩
    exact congrArg Reply.result hsteps.left

end Encoder
end BoundedZlib
