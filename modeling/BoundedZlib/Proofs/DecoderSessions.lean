import BoundedZlib.Proofs.DecoderSteps
import Mathlib.Data.List.Induction

/-!
# Sessions of a decoder

A session reads a stream in steps, each of which is offered some of the bytes
not yet consumed and some room.  However this is done, the session is on the way
to where all bytes lead with room for everything, and if steps are offered
something it gets there.
-/

namespace BoundedZlib
namespace Decoder

/-!
## Reading a stream
-/

/-- What is offered to a step: so many of the bytes not yet consumed, if there are so many. -/
def offered (stream : Bytes) (session : Decoder) (bytes : Nat) : Bytes :=
  (stream.drop session.totalIn).take bytes

/-- The session reads this stream, was never asked to finish, and has delivered these bytes. -/
structure Reading (stream : Bytes) (session : Decoder) (delivered : Bytes) : Prop where
  follows : session.Follows (stream.take session.totalIn) delivered
  totalIn_le : session.totalIn ≤ stream.length
  streams : session.Streams

theorem initial_reading (stream : Bytes) : initial.Reading stream [] where
  follows := initial_follows
  totalIn_le := Nat.zero_le _
  streams := Or.inl rfl

section Reading

variable {stream : Bytes} {session : Decoder} {delivered : Bytes}

theorem Reading.step (hreading : session.Reading stream delivered) {flush : Flush}
    (hflush : flush ≠ .finish) (bytes room : Nat) {answer : Reply}
    (hanswer : session.step (offered stream session bytes) room flush = answer) :
    answer.session.Reading stream (delivered ++ answer.output) ∧
      Answers (offered stream session bytes) answer ∧
      answer.output.length ≤ room ∧ session.totalIn ≤ answer.session.totalIn := by
  rcases step_follows hreading.follows hreading.streams hflush _ room hanswer with
    ⟨taken, rest, hinput, hroom, hfollows, hanswers⟩
  have hstream : stream = stream.take session.totalIn ++ taken ++
      (rest ++ (stream.drop session.totalIn).drop bytes) := by
    rw [List.append_assoc, ← List.append_assoc taken, ← hinput, offered, List.take_append_drop,
      List.take_append_drop]
  have hin := hfollows.totalIn_eq
  have htake : stream.take answer.session.totalIn = stream.take session.totalIn ++ taken := by
    conv => lhs; rw [hstream, hin, List.take_left]
  refine ⟨⟨?_, ?_, hanswers.streams⟩, hanswers, hroom, ?_⟩
  · rw [htake]
    exact hfollows
  · have hlength := congrArg List.length hstream
    rw [List.length_append] at hlength
    rw [hin, hlength]
    exact Nat.le_add_right _ _
  · rw [hin, List.length_append, ← hreading.follows.totalIn_eq]
    exact Nat.le_add_right _ _

theorem Reading.split (hreading : session.Reading stream delivered) :
    ∃ used, Bits.ofBytes stream =
        used ++ (session.unread ++ Bits.ofBytes (stream.drop session.totalIn)) ∧
      session.inflater.position = used.length ∧
      session.inflater.settleFully = Inflater.after used := by
  rcases hreading.follows.used with ⟨used, hused, hposition, hafter⟩
  refine ⟨used, ?_, hposition, hafter⟩
  rw [← List.append_assoc, ← hused, ← Bits.ofBytes_append, List.take_append_drop]

theorem Reading.after_eq (hreading : session.Reading stream delivered) :
    Inflater.after (Bits.ofBytes stream) = session.inflater.settleFully.feedFully
      (session.unread ++ Bits.ofBytes (stream.drop session.totalIn)) := by
  rcases hreading.split with ⟨used, hused, _, hafter⟩
  rw [hused, Inflater.after_append, hafter]

theorem Reading.content_prefix (hreading : session.Reading stream delivered) :
    session.inflater.content.toList <+:
      (Inflater.after (Bits.ofBytes stream)).content.toList := by
  rw [hreading.after_eq]
  exact (Inflater.prefix_settleFully _).trans (Inflater.prefix_feedFully _ _)

theorem Reading.delivered_prefix (hreading : session.Reading stream delivered) :
    delivered <+: (Inflater.after (Bits.ofBytes stream)).content.toList :=
  hreading.follows.delivered_prefix.trans hreading.content_prefix

theorem Reading.totalOut_le (hreading : session.Reading stream delivered) :
    session.totalOut ≤ (Inflater.after (Bits.ofBytes stream)).content.size := by
  rw [hreading.follows.totalOut_eq]
  exact hreading.delivered_prefix.length_le

theorem Reading.after_of_isFinished (hreading : session.Reading stream delivered)
    (hfinished : session.inflater.isFinished = true) :
    Inflater.after (Bits.ofBytes stream) = session.inflater := by
  rw [hreading.after_eq, Inflater.settleFully_of_isFinished hfinished,
    Inflater.feedFully_of_isFinished hfinished]

theorem Reading.after_of_hasFailed (hreading : session.Reading stream delivered)
    (hfailed : session.inflater.hasFailed = true) :
    Inflater.after (Bits.ofBytes stream) = session.inflater := by
  rw [hreading.after_eq, Inflater.settleFully_of_hasFailed hfailed,
    Inflater.feedFully_of_hasFailed hfailed]

theorem Reading.after_of_wantsBit (hreading : session.Reading stream delivered)
    (hwants : session.inflater.wantsBit = true)
    (hunread : session.unread = [])
    (hall : session.totalIn = stream.length) :
    Inflater.after (Bits.ofBytes stream) = session.inflater := by
  rw [hreading.after_eq, Inflater.settleFully_of_wantsBit hwants, hunread, hall,
    List.drop_length]
  rfl

theorem Reading.of_isComplete (hreading : session.Reading stream delivered)
    (hcomplete : session.isComplete = true) :
    Inflater.after (Bits.ofBytes stream) = session.inflater ∧
      delivered = session.inflater.content.toList := by
  rw [isComplete, Bool.and_eq_true, beq_iff_eq] at hcomplete
  rcases hcomplete with ⟨hfinished, hwaiting⟩
  refine ⟨hreading.after_of_isFinished hfinished, ?_⟩
  have hout := hreading.follows.totalOut_of_waiting hwaiting
  rw [hreading.follows.totalOut_eq] at hout
  exact hreading.follows.delivered_prefix.eq_of_length
    (by rw [hout, Array.length_toList])

/-- Only the bits of the last byte consumed may be unread. -/
theorem Reading.totalIn_bounds (hreading : session.Reading stream delivered) :
    session.inflater.position ≤ 8 * session.totalIn ∧
      8 * session.totalIn < session.inflater.position + 8 := by
  rcases hreading.follows.used with ⟨used, hused, hposition, _⟩
  have hunread := hreading.follows.unread_lt
  have hlength := congrArg List.length hused
  rw [Bits.length_ofBytes, ← hreading.follows.totalIn_eq, List.length_append, ← hposition]
    at hlength
  omega

theorem Reading.delivered_eq (hreading : session.Reading stream delivered)
    (hall : (Inflater.after (Bits.ofBytes stream)).content.size ≤ session.totalOut) :
    delivered = (Inflater.after (Bits.ofBytes stream)).content.toList := by
  apply hreading.delivered_prefix.eq_of_length_le
  rw [← hreading.follows.totalOut_eq]
  exact hall

theorem Reading.totalIn_of_offered (hreading : session.Reading stream delivered) {bytes : Nat}
    (hbytes : 0 < bytes) (hinput : offered stream session bytes = []) :
    session.totalIn = stream.length := by
  have hlength := congrArg List.length hinput
  have hle := hreading.totalIn_le
  rw [offered, List.length_take, List.length_drop, List.length_nil] at hlength
  omega

theorem Reading.conduct_of_sound (hreading : session.Reading stream delivered)
    (hsound : (Inflater.after (Bits.ofBytes stream)).hasFailed = false) :
    session.conduct = .fresh ∨ session.conduct = .streaming := by
  rcases or_assoc.mpr hreading.streams with hconduct | ⟨_, hfailed⟩
  · exact hconduct
  · rw [hreading.after_of_hasFailed hfailed, hfailed] at hsound
    exact Bool.noConfusion hsound

theorem Reading.after_of_starved (hreading : session.Reading stream delivered) {flush : Flush}
    (hflush : flush ≠ .finish) {bytes room : Nat} {answer : Reply}
    (hbytes : 0 < bytes)
    (hanswer : session.step (offered stream session bytes) room flush = answer)
    (hinput : offered stream session bytes = [])
    (hwants : answer.session.inflater.wantsBit = true)
    (hunread : answer.session.unread = []) :
    Inflater.after (Bits.ofBytes stream) = answer.session.inflater := by
  rcases hreading.step hflush bytes room hanswer with ⟨hnext, _, _, hin⟩
  have hall := hreading.totalIn_of_offered hbytes hinput
  apply hnext.after_of_wantsBit hwants hunread
  exact Nat.le_antisymm hnext.totalIn_le (Nat.le_trans (Nat.le_of_eq hall.symm) hin)

theorem Reading.not_stalled (hreading : session.Reading stream delivered) {flush : Flush}
    (hflush : flush ≠ .finish) {bytes room : Nat} {answer : Reply}
    (hbytes : 0 < bytes)
    (hanswer : session.step (offered stream session bytes) room flush = answer)
    (hfinished : (Inflater.after (Bits.ofBytes stream)).isFinished = true) :
    answer.result ≠ .ok .stalled := by
  intro hresult
  rcases hreading.step hflush bytes room hanswer with ⟨_, hanswers, _, _⟩
  rcases hanswers.stalled hresult with ⟨hinput, hwants, hunread⟩
  rw [hreading.after_of_starved hflush hbytes hanswer hinput hwants hunread,
    Inflater.isFinished_iff] at hfinished
  rcases Inflater.wantsBit_iff.mp hwants with ⟨reader, hreader⟩
  rw [hreader] at hfinished
  cases hfinished

theorem Reading.progress (hreading : session.Reading stream delivered) {flush : Flush}
    (hflush : flush ≠ .finish) {bytes room : Nat} {answer : Reply}
    (hsound : (Inflater.after (Bits.ofBytes stream)).hasFailed = false)
    (hbytes : 0 < bytes)
    (hroom : 0 < room ∨
      session.totalOut = (Inflater.after (Bits.ofBytes stream)).content.size)
    (hanswer : session.step (offered stream session bytes) room flush = answer) :
    (delivered ++ answer.output = (Inflater.after (Bits.ofBytes stream)).content.toList ∧
        ((Inflater.after (Bits.ofBytes stream)).isFinished = true →
          answer.result = .ok .streamEnd)) ∨
      session.totalIn + session.totalOut < answer.session.totalIn + answer.session.totalOut := by
  rcases hreading.step hflush bytes room hanswer with ⟨hnext, hanswers, _, hin⟩
  have hout := hnext.follows.totalOut_eq
  rw [List.length_append, ← hreading.follows.totalOut_eq] at hout
  have hconduct := hreading.conduct_of_sound hsound
  cases step_moves hreading.follows hconduct hflush _ room hanswer with
  | complete hresult =>
      rcases hnext.of_isComplete (hanswers.complete hresult) with ⟨hafter, hdelivered⟩
      rw [hafter]
      exact Or.inl ⟨hdelivered, fun _ => hresult⟩
  | failed hfailed =>
      rw [hnext.after_of_hasFailed hfailed, hfailed] at hsound
      exact Bool.noConfusion hsound
  | starved hinput hwants hunread hwaiting =>
      have hafter := hreading.after_of_starved hflush hbytes hanswer hinput hwants hunread
      rcases Nat.eq_zero_or_pos answer.output.length with hnothing | hdelivered
      · apply Or.inl
        constructor
        · apply hnext.delivered_eq
          rcases hwaiting with hwaiting | hnone | hdelivered
          · rw [hafter, hnext.follows.totalOut_of_waiting hwaiting]
          · omega
          · omega
        · intro hfinished
          rw [hafter, Inflater.isFinished_iff] at hfinished
          rcases Inflater.wantsBit_iff.mp hwants with ⟨reader, hreader⟩
          rw [hreader] at hfinished
          cases hfinished
      · exact Or.inr (by omega)
  | consumed hconsumed => exact Or.inr (by omega)
  | delivered hdelivered => exact Or.inr (by omega)
  | full hnone hwaiting =>
      have hle : answer.session.inflater.content.size ≤
          (Inflater.after (Bits.ofBytes stream)).content.size := hnext.content_prefix.length_le
      rw [waiting] at hwaiting
      exact Or.inr (by omega)

end Reading

/-!
## Courses of steps
-/

/-- One step: how many bytes it is offered if there are so many, its room, and its flush mode. -/
structure Offer where
  bytes : Nat
  room : Nat
  flush : Flush
deriving Repr, DecidableEq, Inhabited

def Offer.Productive (offer : Offer) : Prop :=
  0 < offer.bytes ∧ 0 < offer.room

instance (offer : Offer) : Decidable offer.Productive :=
  inferInstanceAs (Decidable (_ ∧ _))

/-- What a session came to: what it delivered in all, and how the last step ended. -/
structure Course where
  session : Decoder
  delivered : Bytes
  result? : Option (Except Fault Status)

def Course.next (stream : Bytes) (course : Course) (offer : Offer) : Course :=
  let answer := course.session.step (offered stream course.session offer.bytes) offer.room
    offer.flush
  ⟨answer.session, course.delivered ++ answer.output, some answer.result⟩

def course (stream : Bytes) (offers : List Offer) : Course :=
  offers.foldl (Course.next stream) ⟨initial, [], none⟩

section Course

variable {stream : Bytes} {offers : List Offer}

theorem course_append (more : List Offer) :
    course stream (offers ++ more) = more.foldl (Course.next stream) (course stream offers) :=
  List.foldl_append

theorem course_append_singleton (offer : Offer) :
    course stream (offers ++ [offer]) = (course stream offers).next stream offer :=
  course_append [offer]

theorem delivered_prefix_append (more : List Offer) :
    (course stream offers).delivered <+: (course stream (offers ++ more)).delivered := by
  induction more using List.reverseRecOn with
  | nil =>
      rw [List.append_nil]
  | append_singleton more offer ih =>
      rw [← List.append_assoc, course_append_singleton]
      exact ih.trans (List.prefix_append _ _)

theorem course_reading (hflush : ∀ offer ∈ offers, offer.flush ≠ .finish) :
    (course stream offers).session.Reading stream (course stream offers).delivered := by
  induction offers using List.reverseRecOn with
  | nil => exact initial_reading stream
  | append_singleton offers offer ih =>
      have hreading := ih fun offer hmem => hflush offer (List.mem_append_left _ hmem)
      have hlast := hflush offer (List.mem_append_right _ List.mem_cons_self)
      rw [course_append_singleton]
      exact (hreading.step hlast offer.bytes offer.room rfl).left

theorem course_answers (hflush : ∀ offer ∈ offers, offer.flush ≠ .finish) :
    ((course stream offers).result? = some (.ok .streamEnd) →
        (course stream offers).session.isComplete = true) ∧
      ∀ fault, (course stream offers).result? = some (.error fault) →
        fault = malformed ∧ (course stream offers).session.inflater.hasFailed = true := by
  induction offers using List.reverseRecOn with
  | nil =>
      constructor
      · intro hresult
        cases hresult
      · intro fault hresult
        cases hresult
  | append_singleton offers offer _ =>
      have hreading : (course stream offers).session.Reading stream
          (course stream offers).delivered :=
        course_reading fun offer hmem => hflush offer (List.mem_append_left _ hmem)
      have hlast := hflush offer (List.mem_append_right _ List.mem_cons_self)
      have hanswers := (hreading.step hlast offer.bytes offer.room rfl).right.left
      rw [course_append_singleton]
      constructor
      · intro hresult
        exact hanswers.complete (Option.some.inj hresult)
      · intro fault hresult
        rcases hanswers.fault fault (Option.some.inj hresult) with ⟨hfault, hbroken⟩
        refine ⟨hfault, ?_⟩
        rcases hanswers.bound with hstreaming | hfailed
        · rw [hbroken] at hstreaming
          cases hstreaming
        · exact hfailed.right

/--
With steps that are all offered something, a session delivers all that there is
before it has made more steps than there are bytes to consume and to deliver.
-/
theorem course_progress
    (hsound : (Inflater.after (Bits.ofBytes stream)).hasFailed = false)
    (hflush : ∀ offer ∈ offers, offer.flush ≠ .finish)
    (hproductive : ∀ offer ∈ offers, offer.Productive) :
    (∃ front back, offers = front ++ back ∧
        (course stream front).delivered =
          (Inflater.after (Bits.ofBytes stream)).content.toList ∧
        ((Inflater.after (Bits.ofBytes stream)).isFinished = true →
          (course stream front).result? = some (.ok .streamEnd))) ∨
      offers.length ≤
        (course stream offers).session.totalIn + (course stream offers).session.totalOut := by
  induction offers using List.reverseRecOn with
  | nil => exact Or.inr (Nat.zero_le _)
  | append_singleton offers offer ih =>
      have hflush' : ∀ offer ∈ offers, offer.flush ≠ .finish :=
        fun offer hmem => hflush offer (List.mem_append_left _ hmem)
      have hlast : offer ∈ offers ++ [offer] := List.mem_append_right _ List.mem_cons_self
      rcases ih hflush' (fun offer hmem => hproductive offer (List.mem_append_left _ hmem)) with
        ⟨front, back, hoffers, hdone⟩ | hlength
      · exact Or.inl ⟨front, back ++ [offer], by rw [hoffers, List.append_assoc], hdone⟩
      · rcases hproductive offer hlast with ⟨hbytes, hroom⟩
        rcases (course_reading hflush').progress (hflush offer hlast) hsound hbytes
          (Or.inl hroom) rfl with ⟨hdelivered, hend⟩ | hmore
        · refine Or.inl ⟨offers ++ [offer], [], (List.append_nil _).symm, ?_, ?_⟩
          · rw [course_append_singleton]
            exact hdelivered
          · intro hfinished
            rw [course_append_singleton]
            exact congrArg some (hend hfinished)
        · apply Or.inr
          rw [course_append_singleton, List.length_append, List.length_singleton]
          exact Nat.lt_of_le_of_lt hlength hmore

end Course

end Decoder
end BoundedZlib
