import BoundedZlib.Proofs.Language

/-!
# Reading that refuses what lies before the start

A strict inflater fails at a copy that reaches before the first byte of content, where
any other finds zeros.  On all other bits both go from state to state alike, and a strict
run comes to the end of a stream if it has room for the content of it.
-/

namespace BoundedZlib

/-!
## Back-references
-/

/-- How much content is there when a copy is read, and how far back it reaches. -/
structure BackReference where
  before : Nat
  distance : Nat
deriving Repr, DecidableEq, Inhabited

def BackReference.IsWithin (reference : BackReference) : Prop :=
  reference.distance ≤ reference.before

instance (reference : BackReference) : Decidable reference.IsWithin :=
  inferInstanceAs (Decidable (_ ≤ _))

/-- What an element refers to, if it is read behind so much content. -/
def Element.references (before : Nat) : Element → List BackReference
  | .token? (some (.copy _ distance)) => [⟨before, distance⟩]
  | _ => []

theorem Element.copy_of_mem_references {before : Nat} {element : Element}
    {reference : BackReference} (hmem : reference ∈ element.references before) :
    ∃ length, element = .token? (some (.copy length reference.distance)) ∧
      reference.before = before := by
  unfold references at hmem
  split at hmem
  · rename_i length distance
    rw [List.mem_singleton] at hmem
    rw [hmem]
    exact ⟨length, rfl, rfl⟩
  · cases hmem

namespace Inflater

def referencesOf (before : Nat) : Option (Element × List Part) → List BackReference
  | some (element, _) => element.references before
  | none => []

/-- The back-references that reading in full comes upon, in their order. -/
def backReferences : Inflater → List Bool → List BackReference
  | _, [] => []
  | state, bit :: rest =>
      referencesOf state.content.size (state.feed bit).2 ++
        backReferences (state.feed bit).1.settleFully rest

/-- No back-reference reaches before the first byte of content. -/
def StaysWithin (state : Inflater) (bits : List Bool) : Prop :=
  ∀ reference ∈ state.backReferences bits, reference.IsWithin

instance (state : Inflater) (bits : List Bool) : Decidable (state.StaysWithin bits) :=
  inferInstanceAs (Decidable (∀ reference ∈ _, _))

theorem staysWithin_nil (state : Inflater) : state.StaysWithin [] := by
  intro reference hmem
  cases hmem

theorem staysWithin_cons {state : Inflater} {bit : Bool} {rest : List Bool} :
    state.StaysWithin (bit :: rest) ↔
      (∀ reference ∈ referencesOf state.content.size (state.feed bit).2, reference.IsWithin) ∧
      (state.feed bit).1.settleFully.StaysWithin rest :=
  List.forall_mem_append

theorem staysWithin_append {state : Inflater} {front back : List Bool} :
    state.StaysWithin (front ++ back) ↔
      state.StaysWithin front ∧ (state.feedFully front).StaysWithin back := by
  induction front generalizing state with
  | nil => exact ⟨fun hback => ⟨staysWithin_nil state, hback⟩, fun h => h.right⟩
  | cons bit rest ih =>
      rw [List.cons_append, staysWithin_cons, staysWithin_cons, ih, feedFully_cons, and_assoc]

theorem staysWithin_of_isFinished {state : Inflater} (hfinished : state.isFinished = true)
    (bits : List Bool) :
    state.StaysWithin bits := by
  induction bits with
  | nil => exact staysWithin_nil state
  | cons bit rest ih =>
      have hfeed : state.feed bit = (state, none) := by
        unfold feed
        rw [isFinished_iff.mp hfinished]
      rw [staysWithin_cons, hfeed, settleFully_of_isFinished hfinished]
      refine ⟨?_, ih⟩
      intro reference hmem
      cases hmem

/-!
## Strict and other states
-/

def strictly (state : Inflater) : Inflater :=
  { state with strict := true }

theorem initial_strictly : initial true = strictly (initial false) := rfl

theorem isFinished_strictly (state : Inflater) : (strictly state).isFinished = state.isFinished :=
  rfl

section Strictly

variable (state : Inflater)

theorem enterStored_strictly (final : Bool) (left : Nat) :
    (strictly state).enterStored final left = strictly (state.enterStored final left) := by
  cases left with
  | zero => rfl
  | succ left => rfl

theorem advance_strictly : (strictly state).advance = strictly state.advance := by
  have hplace : (strictly state).place = state.place := rfl
  unfold advance
  rw [hplace]
  cases state.place with
  | stored final left => exact enterStored_strictly state final (left - 1)
  | start => rfl
  | block => rfl
  | coded final codes => rfl
  | trailer => rfl

theorem settleFully_strictly : (strictly state).settleFully = strictly state.settleFully := by
  have hwrite : (strictly state).writeFully = strictly state.writeFully := by
    have hphase : (strictly state).phase = state.phase := rfl
    unfold writeFully
    rw [hphase]
    cases state.phase with
    | writing token => exact advance_strictly { state with content := state.content.spell token }
    | reading reader => rfl
    | holding => rfl
    | finished => rfl
    | failed => rfl
  rw [settleFully, settleFully, hwrite]
  generalize state.writeFully = written
  have hphase : (strictly written).phase = written.phase := rfl
  unfold unholdFully
  rw [hphase]
  cases written.phase with
  | writing token => rfl
  | reading reader => rfl
  | holding => rfl
  | finished => rfl
  | failed => rfl

end Strictly

section Lax

variable {state : Inflater}

theorem accept_strictly (hlax : state.strict = false) {element : Element}
    (hwithin : ∀ reference ∈ element.references state.content.size, reference.IsWithin) :
    (strictly state).accept element = strictly (state.accept element) := by
  cases element with
  | header => rfl
  | opening final body =>
      cases body with
      | stored length => exact enterStored_strictly state final length
      | coded codes => rfl
  | token? token? =>
      cases token? with
      | none =>
          have hplace : (strictly state).place = state.place := rfl
          unfold accept
          dsimp only
          rw [hplace]
          cases state.place with
          | coded final codes => rfl
          | start => rfl
          | block => rfl
          | stored final left => rfl
          | trailer => rfl
      | some token =>
          cases token with
          | literal byte => rfl
          | copy length distance =>
              have hnear : distance ≤ state.content.size := hwithin _ List.mem_cons_self
              have hlaxly : state.admits (.copy length distance) = true := by
                rw [admits, hlax]
                rfl
              have hstrictly : (strictly state).admits (.copy length distance) = true :=
                decide_eq_true hnear
              rw [accept, accept, hlaxly, hstrictly]
              rfl
  | checksum value => rfl

theorem accept_strictly_refused {element : Element} {reference : BackReference}
    (hmem : reference ∈ element.references state.content.size) (hbeyond : ¬ reference.IsWithin) :
    ((strictly state).accept element).hasFailed = true := by
  rcases Element.copy_of_mem_references hmem with ⟨length, helement, hbefore⟩
  rw [BackReference.IsWithin, hbefore] at hbeyond
  have hadmits : (strictly state).admits (.copy length reference.distance) = false :=
    decide_eq_false hbeyond
  rw [helement, accept, hadmits]
  rfl

theorem strict_advance (state : Inflater) : state.advance.strict = state.strict := by
  rcases advance_eq state with ⟨place, phase, _, hadvance⟩
  rw [show state.advance = _ from hadvance state.phase]

theorem strict_settleFully (state : Inflater) : state.settleFully.strict = state.strict := by
  have hunhold : ∀ other : Inflater, other.unholdFully.strict = other.strict := by
    intro other
    unfold unholdFully
    split
    · rfl
    · rfl
  rw [settleFully, hunhold]
  unfold writeFully
  split
  · exact strict_advance _
  · rfl

theorem strict_feed (state : Inflater) (bit : Bool) : (state.feed bit).1.strict = state.strict := by
  cases hwants : state.wantsBit with
  | true =>
      rcases feed_eq hwants bit with ⟨place, phase, hfeed⟩
      rw [hfeed]
  | false => rw [feed_of_not_wantsBit hwants]

theorem strict_feedFully (state : Inflater) (bits : List Bool) :
    (state.feedFully bits).strict = state.strict := by
  induction bits generalizing state with
  | nil => rfl
  | cons bit rest ih => rw [feedFully_cons, ih, strict_settleFully, strict_feed]

theorem eq_of_strictly {other : Inflater} (hlax : state.strict = false)
    (hother : other = strictly state) :
    state = { other with strict := false } := by
  rw [hother, strictly, ← hlax]

theorem feed_strictly (hlax : state.strict = false) {bit : Bool}
    (hwithin : ∀ reference ∈ referencesOf state.content.size (state.feed bit).2,
      reference.IsWithin) :
    ((strictly state).feed bit).1 = strictly (state.feed bit).1 := by
  cases hwants : state.wantsBit with
  | false =>
      have hwants' : (strictly state).wantsBit = false := hwants
      rw [feed_of_not_wantsBit hwants, feed_of_not_wantsBit hwants']
  | true =>
      rcases wantsBit_iff.mp hwants with ⟨reader, hphase⟩
      have hphase' : (strictly state).phase = .reading reader := hphase
      unfold feed at hwithin ⊢
      rw [hphase] at hwithin
      rw [hphase, hphase']
      dsimp only at hwithin ⊢
      cases hread : reader.feed bit with
      | done read =>
          rw [hread] at hwithin
          have hlax' : ({ state with position := state.position + 1 } : Inflater).strict = false :=
            hlax
          exact accept_strictly hlax' hwithin
      | bit next => rfl
      | reject => rfl

theorem feed_strictly_refused {bit : Bool} {reference : BackReference}
    (hmem : reference ∈ referencesOf state.content.size (state.feed bit).2)
    (hbeyond : ¬ reference.IsWithin) :
    ((strictly state).feed bit).1.hasFailed = true := by
  cases hwants : state.wantsBit with
  | false =>
      rw [feed_of_not_wantsBit hwants] at hmem
      cases hmem
  | true =>
      rcases wantsBit_iff.mp hwants with ⟨reader, hphase⟩
      have hphase' : (strictly state).phase = .reading reader := hphase
      unfold feed at hmem ⊢
      rw [hphase] at hmem
      rw [hphase']
      dsimp only at hmem ⊢
      cases hread : reader.feed bit with
      | done read =>
          rw [hread] at hmem
          exact @accept_strictly_refused { state with position := state.position + 1 }
            read.1 reference hmem hbeyond
      | bit next =>
          rw [hread] at hmem
          cases hmem
      | reject =>
          rw [hread] at hmem
          cases hmem

/-- Strict reading goes along with any other as long as no copy reaches before the start. -/
theorem feedFully_strictly (hlax : state.strict = false) {bits : List Bool}
    (hwithin : state.StaysWithin bits) :
    (strictly state).feedFully bits = strictly (state.feedFully bits) := by
  induction bits generalizing state with
  | nil => rfl
  | cons bit rest ih =>
      rcases staysWithin_cons.mp hwithin with ⟨hfirst, hrest⟩
      rw [feedFully_cons, feedFully_cons, feed_strictly hlax hfirst, settleFully_strictly]
      exact ih ((strict_settleFully _).trans ((strict_feed state bit).trans hlax)) hrest

/-- Strict reading fails at the first copy that reaches before the start. -/
theorem feedFully_strictly_refused (hlax : state.strict = false) {bits : List Bool}
    (hbeyond : ¬ state.StaysWithin bits) :
    ((strictly state).feedFully bits).hasFailed = true := by
  induction bits generalizing state with
  | nil => exact absurd (staysWithin_nil state) hbeyond
  | cons bit rest ih =>
      rw [feedFully_cons]
      by_cases hfirst : ∀ reference ∈ referencesOf state.content.size (state.feed bit).2,
          reference.IsWithin
      · rw [feed_strictly hlax hfirst, settleFully_strictly]
        apply ih ((strict_settleFully _).trans ((strict_feed state bit).trans hlax))
        exact fun hrest => hbeyond (staysWithin_cons.mpr ⟨hfirst, hrest⟩)
      · simp only [not_forall] at hfirst
        rcases hfirst with ⟨reference, hmem, hbeyond'⟩
        have hfailed := feed_strictly_refused hmem hbeyond'
        rw [settleFully_of_hasFailed hfailed, feedFully_of_hasFailed hfailed]
        exact hfailed

end Lax

/-!
## What waits for room
-/

def HoldsStored (state : Inflater) : Prop :=
  state.phase = .holding → ∃ final left, state.place = .stored final (left + 1)

theorem holdsStored_of_wantsBit {state : Inflater} (hwants : state.wantsBit = true) :
    state.HoldsStored := by
  intro hholding
  rcases wantsBit_iff.mp hwants with ⟨reader, hphase⟩
  rw [hphase] at hholding
  cases hholding

theorem holdsStored_enterStored (state : Inflater) (final : Bool) (left : Nat) :
    (state.enterStored final left).HoldsStored := by
  cases left with
  | zero => exact holdsStored_of_wantsBit rfl
  | succ left => exact fun _ => ⟨final, left, rfl⟩

theorem holdsStored_advance (state : Inflater) : state.advance.HoldsStored := by
  unfold advance
  split
  · exact holdsStored_enterStored _ _ _
  · exact holdsStored_of_wantsBit rfl

theorem holdsStored_accept (state : Inflater) (element : Element) :
    (state.accept element).HoldsStored := by
  unfold accept
  split
  · exact holdsStored_of_wantsBit rfl
  · exact holdsStored_enterStored _ _ _
  · exact holdsStored_of_wantsBit rfl
  · intro hholding
    dsimp only at hholding
    split at hholding
    · cases hholding
    · cases hholding
  · split
    · exact holdsStored_of_wantsBit rfl
    · intro hholding
      cases hholding
  · intro hholding
    dsimp only at hholding
    split at hholding
    · cases hholding
    · cases hholding

theorem holdsStored_feed {state : Inflater} (hwants : state.wantsBit = true) (bit : Bool) :
    (state.feed bit).1.HoldsStored := by
  rcases wantsBit_iff.mp hwants with ⟨reader, hphase⟩
  unfold feed
  rw [hphase]
  dsimp only
  split
  · exact holdsStored_accept _ _
  · exact holdsStored_of_wantsBit rfl
  · intro hholding
    cases hholding

section Limit

variable {limit : Nat}

theorem holdsStored_write {state : Inflater} (hstored : state.HoldsStored) :
    (state.write limit).HoldsStored := by
  unfold write
  split
  · split
    · exact holdsStored_advance _
    · exact hstored
  · dsimp only
    split
    · exact holdsStored_advance _
    · intro hholding
      cases hholding
  · exact hstored

theorem holdsStored_settle {state : Inflater} (hstored : state.HoldsStored) (atHand : Bool) :
    (state.settle limit atHand).HoldsStored := by
  have hwritten := @holdsStored_write limit state hstored
  rw [settle]
  generalize state.write limit = written at hwritten
  unfold unhold
  split
  · split
    · exact holdsStored_of_wantsBit rfl
    · exact hwritten
  · exact hwritten

theorem size_of_settle {state : Inflater} {atHand : Bool} {token : Token}
    (hwriting : (state.settle limit atHand).phase = .writing token) :
    0 < token.size := by
  rw [settle] at hwriting
  unfold unhold at hwriting
  split at hwriting
  · rename_i hholding
    split at hwriting
    · cases hwriting
    · rw [hholding] at hwriting
      cases hwriting
  · exact (write_stops limit state token hwriting).left

theorem runFrom_waits {stretch : Stretch} {look : Lookahead} {before after : Inflater}
    {bits rest : List Bool} (hstored : before.HoldsStored)
    (hrun : runFrom limit stretch look before bits = (after, rest)) :
    after.HoldsStored ∧ ∀ token, after.phase = .writing token → 0 < token.size := by
  induction bits generalizing look before with
  | nil =>
      rw [runFrom, Prod.mk.injEq] at hrun
      rw [← hrun.left]
      exact ⟨holdsStored_settle hstored _, fun _ => size_of_settle⟩
  | cons bit more ih =>
      rw [runFrom] at hrun
      dsimp only at hrun
      split at hrun
      · rename_i hwants
        exact ih (holdsStored_feed hwants bit) hrun
      · rw [Prod.mk.injEq] at hrun
        rw [← hrun.left]
        exact ⟨holdsStored_settle hstored _, fun _ => size_of_settle⟩

/-!
## Strict runs
-/

variable {bits rest : List Bool} {last : Inflater}

theorem settleFully_initial (strict : Bool) : (initial strict).settleFully = initial strict :=
  settleFully_of_wantsBit rfl

theorem feedFully_initial_true (hwithin : (initial false).StaysWithin bits) :
    (initial true).feedFully bits = strictly (after bits) :=
  feedFully_strictly rfl hwithin

theorem run_finished (hrun : (initial true).run limit bits = (last, rest))
    (hfinished : last.isFinished = true) :
    (initial false).StaysWithin bits ∧ last = strictly (after bits) ∧
      (after bits).content.size ≤ limit := by
  rcases run_leads limit hrun with ⟨used, hbits, hleads, _, _⟩
  have hlast : last = (initial true).feedFully used := by
    rw [← settleFully_of_isFinished hfinished, hleads.settleFully_eq, settleFully_initial]
  have hused : (initial false).StaysWithin used := by
    by_contra hbeyond
    have hlax : (initial false).strict = false := rfl
    have hfailed := feedFully_strictly_refused hlax hbeyond
    rw [← initial_strictly, ← hlast, hasFailed_of_isFinished hfinished] at hfailed
    exact Bool.noConfusion hfailed
  rw [feedFully_initial_true hused] at hlast
  rw [hlast, isFinished_strictly] at hfinished
  have hafter : after bits = after used := by
    rw [hbits, after_append, feedFully_of_isFinished hfinished]
  have hwithin : (initial false).StaysWithin bits := by
    rw [hbits, staysWithin_append]
    exact ⟨hused, staysWithin_of_isFinished hfinished rest⟩
  rw [hafter]
  refine ⟨hwithin, hlast, ?_⟩
  have hsize := hleads.size_le
  rw [hlast] at hsize
  exact Nat.le_trans hsize (Nat.le_of_eq (Nat.max_zero limit))

theorem size_lt_of_stored {position left : Nat} {content : Bytes} {final : Bool}
    (hfinished : ((standing (.stored final (left + 1)) position content).feedFully
      bits).isFinished = true) :
    content.length <
      ((standing (.stored final (left + 1)) position content).feedFully bits).content.size := by
  have hreader : ∀ element parts,
      ¬ (Place.reader position (.stored final (left + 1))).Reads [] (element, parts) := by
    intro element parts hreads
    rcases reads_stored.mp ⟨parts, hreads⟩ with ⟨byte, _, hbyte⟩
    exact absurd (congrArg List.length hbyte) (by simp)
  rcases element_or_pending hreader content bits with
    ⟨front, back, element, _, _, hreads, hfeed⟩ | hpending
  · rcases reads_stored.mp hreads with ⟨byte, helement, _⟩
    rw [helement, accept_byte] at hfeed
    have hle := (prefix_feedFully
      (standing (.storing final left) (position + front.length) (content ++ [byte])) back).length_le
    rw [← hfeed, Array.length_toList, Array.length_toList] at hle
    refine Nat.lt_of_lt_of_le ?_ hle
    rw [standing, midst, List.size_toArray, List.length_append, List.length_singleton]
    exact Nat.lt_succ_self _
  · rw [hpending.not_isFinished] at hfinished
    exact Bool.noConfusion hfinished

theorem size_lt_of_holding {state other : Inflater} (hphase : state.phase = .holding)
    (hstored : state.HoldsStored)
    (hlax : other.strict = false)
    (hsettle : state.settleFully = strictly other)
    (hfinished : (other.feedFully bits).isFinished = true) :
    state.content.size < (other.feedFully bits).content.size := by
  rcases hstored hphase with ⟨final, left, hplace⟩
  rw [settleFully, writeFully_other (by simp [hphase]), unholdFully_holding hphase,
    hplace] at hsettle
  have hother : other = standing (.stored final (left + 1)) state.position state.content.toList :=
    eq_of_strictly hlax hsettle
  rw [hother] at hfinished ⊢
  have hmore := size_lt_of_stored hfinished
  rw [Array.length_toList] at hmore
  exact hmore

theorem size_lt_of_writing {state : Inflater} {token : Token}
    (hphase : state.phase = .writing token) (hpos : 0 < token.size) (bits : List Bool) :
    state.content.size < (state.settleFully.feedFully bits).content.size := by
  have hle := (prefix_feedFully state.settleFully bits).length_le
  rw [content_settleFully hphase, Array.length_toList, Array.length_toList,
    Content.size_spell] at hle
  omega

/-- With room for all content, a strict run on a stream comes to its end. -/
theorem run_finishes (hrun : (initial true).run limit bits = (last, rest))
    (hwithin : (initial false).StaysWithin bits)
    (hfinished : (after bits).isFinished = true)
    (hroom : (after bits).content.size ≤ limit) :
    last.isFinished = true := by
  rcases run_leads limit hrun with ⟨used, hbits, hleads, hsettled, hend⟩
  rcases runFrom_waits (holdsStored_of_wantsBit rfl) hrun with ⟨hstored, hsize⟩
  have hsettle : last.settleFully = (initial true).feedFully used := by
    rw [hleads.settleFully_eq, settleFully_initial]
  have hfull : last.settleFully.feedFully rest = strictly (after bits) := by
    rw [hsettle, ← feedFully_append, ← hbits, feedFully_initial_true hwithin]
  cases hphase : last.phase with
  | finished => exact isFinished_iff.mpr hphase
  | failed =>
      have hfailed := hasFailed_iff.mpr hphase
      rw [settleFully_of_hasFailed hfailed, feedFully_of_hasFailed hfailed] at hfull
      rw [hfull, isFinished_strictly]
      exact hfinished
  | reading reader =>
      have hwants := wantsBit_iff.mpr ⟨reader, hphase⟩
      rcases hend with hrest | hstops
      · rw [settleFully_of_wantsBit hwants, hrest, feedFully_nil] at hfull
        rw [hfull, isFinished_strictly]
        exact hfinished
      · rw [hwants] at hstops
        exact Bool.noConfusion hstops
  | writing token =>
      -- What is left of the token found no room, so there is not room for all content.
      have hlimit : limit ≤ last.content.size := by
        simpa [Settled, wantsBit, isFinished, hasFailed, hphase] using hsettled
      have hmore := size_lt_of_writing hphase (hsize token hphase) rest
      rw [hfull] at hmore
      exact absurd (Nat.lt_of_lt_of_le hmore hroom) (Nat.not_lt_of_le hlimit)
  | holding =>
      have hlimit : limit ≤ last.content.size := by
        simpa [Settled, wantsBit, isFinished, hasFailed, hphase] using hsettled
      rw [hbits, staysWithin_append] at hwithin
      rw [feedFully_initial_true hwithin.left] at hsettle
      rw [hbits, after_append] at hfinished hroom
      have hmore := size_lt_of_holding hphase hstored (strict_feedFully _ used) hsettle hfinished
      exact absurd (Nat.lt_of_lt_of_le hmore hroom) (Nat.not_lt_of_le hlimit)

end Limit

end Inflater
end BoundedZlib
