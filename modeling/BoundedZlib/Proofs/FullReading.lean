import BoundedZlib.Inflater
import BoundedZlib.Proofs.ReadingTokens
import Mathlib.Data.List.Infix

/-!
# Reading with room for everything

How far a run goes depends on the limit that it is given and on the bits that
are there.  Both matter only for when something is read and written.  This
module says what a stream means when every bit is read and everything written
at once, and that a run with a limit is on the way there: what it has yet to
write is all that keeps it from the state that its bits lead to.
-/

namespace BoundedZlib

theorem Content.prefix_spell (content : Content) (token : Token) :
    content.toList <+: (content.spell token).toList := by
  cases token with
  | literal byte =>
      rw [Content.spell, Content.toList_push]
      exact List.prefix_append _ _
  | copy length distance => exact Content.toList_prefix_copy _ _ _

namespace Inflater

/-!
## Everything written at once
-/

def writeFully (state : Inflater) : Inflater :=
  match state.phase with
  | .writing token => advance { state with content := state.content.spell token }
  | _ => state

def unholdFully (state : Inflater) : Inflater :=
  match state.phase with
  | .holding => state.enter state.place
  | _ => state

def settleFully (state : Inflater) : Inflater :=
  state.writeFully.unholdFully

def feedFully (state : Inflater) (bits : List Bool) : Inflater :=
  bits.foldl (fun state bit => (state.feed bit).1.settleFully) state

/-- Where reading stands after the first bits of a stream, with room for everything. -/
def after (bits : List Bool) : Inflater :=
  (initial false).feedFully bits

theorem feedFully_nil (state : Inflater) : state.feedFully [] = state := rfl

theorem feedFully_cons (state : Inflater) (bit : Bool) (rest : List Bool) :
    state.feedFully (bit :: rest) = (state.feed bit).1.settleFully.feedFully rest := rfl

theorem feedFully_append (state : Inflater) (front back : List Bool) :
    state.feedFully (front ++ back) = (state.feedFully front).feedFully back :=
  List.foldl_append

theorem after_append (front back : List Bool) :
    after (front ++ back) = (after front).feedFully back :=
  feedFully_append _ front back

/-!
## Phases
-/

theorem wantsBit_iff {state : Inflater} :
    state.wantsBit = true ↔ ∃ reader, state.phase = .reading reader := by
  unfold wantsBit
  cases state.phase with
  | reading reader => simp
  | writing token => simp
  | holding => simp
  | finished => simp
  | failed => simp

theorem isFinished_iff {state : Inflater} : state.isFinished = true ↔ state.phase = .finished := by
  unfold isFinished
  cases state.phase with
  | reading reader => simp
  | writing token => simp
  | holding => simp
  | finished => simp
  | failed => simp

theorem hasFailed_iff {state : Inflater} : state.hasFailed = true ↔ state.phase = .failed := by
  unfold hasFailed
  cases state.phase with
  | reading reader => simp
  | writing token => simp
  | holding => simp
  | finished => simp
  | failed => simp

theorem hasFailed_of_isFinished {state : Inflater} (hfinished : state.isFinished = true) :
    state.hasFailed = false := by
  rw [isFinished_iff] at hfinished
  unfold hasFailed
  rw [hfinished]

theorem hasFailed_of_wantsBit {state : Inflater} (hwants : state.wantsBit = true) :
    state.hasFailed = false := by
  rcases wantsBit_iff.mp hwants with ⟨reader, hphase⟩
  unfold hasFailed
  rw [hphase]

theorem writeFully_writing {state : Inflater} {token : Token}
    (hphase : state.phase = .writing token) :
    state.writeFully = advance { state with content := state.content.spell token } := by
  unfold writeFully
  rw [hphase]

theorem writeFully_other {state : Inflater} (hphase : ∀ token, state.phase ≠ .writing token) :
    state.writeFully = state := by
  unfold writeFully
  cases hstate : state.phase with
  | writing token => exact absurd hstate (hphase token)
  | reading reader => rfl
  | holding => rfl
  | finished => rfl
  | failed => rfl

theorem unholdFully_holding {state : Inflater} (hphase : state.phase = .holding) :
    state.unholdFully = state.enter state.place := by
  unfold unholdFully
  rw [hphase]

theorem unholdFully_other {state : Inflater} (hphase : state.phase ≠ .holding) :
    state.unholdFully = state := by
  unfold unholdFully
  cases hstate : state.phase with
  | holding => exact absurd hstate hphase
  | reading reader => rfl
  | writing token => rfl
  | finished => rfl
  | failed => rfl

theorem settleFully_other {state : Inflater}
    (hwriting : ∀ token, state.phase ≠ .writing token)
    (hholding : state.phase ≠ .holding) :
    state.settleFully = state := by
  rw [settleFully, writeFully_other hwriting, unholdFully_other hholding]

theorem settleFully_of_wantsBit {state : Inflater} (hwants : state.wantsBit = true) :
    state.settleFully = state := by
  rcases wantsBit_iff.mp hwants with ⟨reader, hphase⟩
  apply settleFully_other
  · simp [hphase]
  · simp [hphase]

theorem settleFully_of_isFinished {state : Inflater} (hfinished : state.isFinished = true) :
    state.settleFully = state := by
  have hphase := isFinished_iff.mp hfinished
  apply settleFully_other
  · simp [hphase]
  · simp [hphase]

theorem settleFully_of_hasFailed {state : Inflater} (hfailed : state.hasFailed = true) :
    state.settleFully = state := by
  have hphase := hasFailed_iff.mp hfailed
  apply settleFully_other
  · simp [hphase]
  · simp [hphase]

theorem feedFully_of_isFinished {state : Inflater} (hfinished : state.isFinished = true)
    (bits : List Bool) :
    state.feedFully bits = state := by
  induction bits with
  | nil => rfl
  | cons bit rest ih =>
      have hfeed : (state.feed bit).1 = state := by
        unfold feed
        rw [isFinished_iff.mp hfinished]
      rw [feedFully_cons, hfeed, settleFully_of_isFinished hfinished, ih]

theorem feedFully_of_hasFailed {state : Inflater} (hfailed : state.hasFailed = true)
    (bits : List Bool) :
    state.feedFully bits = state := by
  induction bits with
  | nil => rfl
  | cons bit rest ih =>
      have hfeed : (state.feed bit).1 = state := by
        unfold feed
        rw [hasFailed_iff.mp hfailed]
      rw [feedFully_cons, hfeed, settleFully_of_hasFailed hfailed, ih]

/-!
## Going on
-/

theorem advance_eq (state : Inflater) :
    ∃ place phase, (phase = .holding ∨ phase = .reading (place.reader state.position)) ∧
      ∀ before, advance { state with phase := before } =
        { state with place := place, phase := phase } := by
  cases state.place with
  | stored final left =>
      cases hleft : left - 1 with
      | zero =>
          refine ⟨if final then .trailer else .block, _, Or.inr rfl, ?_⟩
          intro before
          simp [advance, hleft, enterStored, leave, enter]
      | succ more =>
          refine ⟨.stored final (more + 1), _, Or.inl rfl, ?_⟩
          intro before
          simp [advance, hleft, enterStored]
  | start =>
      refine ⟨.start, _, Or.inr rfl, ?_⟩
      intro before
      simp [advance, enter]
  | block =>
      refine ⟨.block, _, Or.inr rfl, ?_⟩
      intro before
      simp [advance, enter]
  | coded final codes =>
      refine ⟨.coded final codes, _, Or.inr rfl, ?_⟩
      intro before
      simp [advance, enter]
  | trailer =>
      refine ⟨.trailer, _, Or.inr rfl, ?_⟩
      intro before
      simp [advance, enter]

theorem advance_phase (state : Inflater) (phase : Phase) :
    advance { state with phase := phase } = state.advance := by
  rcases advance_eq state with ⟨place, after, _, hadvance⟩
  rw [hadvance phase, ← hadvance state.phase]

theorem advance_not_writing (state : Inflater) (token : Token) :
    state.advance.phase ≠ .writing token := by
  rcases advance_eq state with ⟨place, phase, hphase, hadvance⟩
  rw [show state.advance = _ from hadvance state.phase]
  rcases hphase with hphase | hphase
  · rw [hphase]
    exact Phase.noConfusion
  · rw [hphase]
    exact Phase.noConfusion

theorem accept_eq (state : Inflater) (element : Element) :
    ∃ place phase, state.accept element = { state with place := place, phase := phase } := by
  cases element with
  | header => exact ⟨_, _, rfl⟩
  | opening final body =>
      cases body with
      | stored length =>
          cases length with
          | zero => exact ⟨_, _, rfl⟩
          | succ left => exact ⟨_, _, rfl⟩
      | coded codes => exact ⟨_, _, rfl⟩
  | token? token? =>
      cases token? with
      | some token => exact ⟨_, _, rfl⟩
      | none =>
          cases hplace : state.place with
          | coded final codes => exact ⟨_, _, by simp only [accept, hplace]; rfl⟩
          | start => exact ⟨_, _, by simp only [accept, hplace]; rfl⟩
          | block => exact ⟨_, _, by simp only [accept, hplace]; rfl⟩
          | stored final left => exact ⟨_, _, by simp only [accept, hplace]; rfl⟩
          | trailer => exact ⟨_, _, by simp only [accept, hplace]; rfl⟩
  | checksum value => exact ⟨_, _, rfl⟩

theorem feed_eq {state : Inflater} (hwants : state.wantsBit = true) (bit : Bool) :
    ∃ place phase, (state.feed bit).1 =
      { state with place := place, phase := phase, position := state.position + 1 } := by
  rcases wantsBit_iff.mp hwants with ⟨reader, hphase⟩
  unfold feed
  rw [hphase]
  dsimp only
  split
  · exact accept_eq _ _
  · exact ⟨_, _, rfl⟩
  · exact ⟨_, _, rfl⟩

theorem feed_of_not_wantsBit {state : Inflater} (hwants : state.wantsBit = false) (bit : Bool) :
    state.feed bit = (state, none) := by
  unfold wantsBit at hwants
  unfold feed
  cases hphase : state.phase with
  | reading reader => simp [hphase] at hwants
  | writing token => rfl
  | holding => rfl
  | finished => rfl
  | failed => rfl

/-!
## Writing within a limit
-/

section Limit

variable (limit : Nat)

theorem copyWithin_eq (distance : Nat) (content : Content) (length : Nat) :
    Content.copy (copyWithin limit distance content length).1
      (copyWithin limit distance content length).2 distance = content.copy length distance := by
  induction length generalizing content with
  | zero => rfl
  | succ length ih =>
      rw [copyWithin]
      split
      · rw [ih, Content.copy]
      · rfl

theorem prefix_copyWithin (distance : Nat) (content : Content) (length : Nat) :
    content.toList <+: (copyWithin limit distance content length).1.toList := by
  induction length generalizing content with
  | zero => exact List.prefix_rfl
  | succ length ih =>
      rw [copyWithin]
      split
      · apply List.IsPrefix.trans _ (ih _)
        rw [Content.toList_push]
        exact List.prefix_append _ _
      · exact List.prefix_rfl

theorem size_copyWithin_le (distance : Nat) (content : Content) (length : Nat) :
    (copyWithin limit distance content length).1.size ≤ max limit content.size := by
  induction length generalizing content with
  | zero => exact Nat.le_max_right _ _
  | succ length ih =>
      rw [copyWithin]
      split
      · have hnext := ih (content.push (content.back distance))
        rw [Array.size_push] at hnext
        omega
      · exact Nat.le_max_right _ _

theorem copyWithin_stops (distance : Nat) (content : Content) (length : Nat) :
    (copyWithin limit distance content length).2 = 0 ∨
      limit ≤ (copyWithin limit distance content length).1.size := by
  induction length generalizing content with
  | zero => exact Or.inl rfl
  | succ length ih =>
      rw [copyWithin]
      split
      · exact ih _
      · rename_i hfull
        exact Or.inr (Nat.le_of_not_lt hfull)

/--
Reading leads with these bits from one state to another.  It is on the way to
what they lead to in full, and writes no more than the limit allows.
-/
structure Leads (before : Inflater) (bits : List Bool) (after : Inflater) : Prop where
  settleFully_eq : after.settleFully = before.settleFully.feedFully bits
  position_eq : after.position = before.position + bits.length
  content_prefix : before.content.toList <+: after.content.toList
  size_le : after.content.size ≤ max limit before.content.size

theorem Leads.refl (state : Inflater) : Leads limit state [] state where
  settleFully_eq := rfl
  position_eq := rfl
  content_prefix := List.prefix_rfl
  size_le := Nat.le_max_right _ _

theorem Leads.trans {first second third : Inflater} {front back : List Bool}
    (hfirst : Leads limit first front second) (hsecond : Leads limit second back third) :
    Leads limit first (front ++ back) third where
  settleFully_eq := by
    rw [hsecond.settleFully_eq, hfirst.settleFully_eq, feedFully_append]
  position_eq := by
    rw [hsecond.position_eq, hfirst.position_eq, List.length_append, Nat.add_assoc]
  content_prefix := hfirst.content_prefix.trans hsecond.content_prefix
  size_le := by
    have hleft := hfirst.size_le
    have hright := hsecond.size_le
    omega

theorem settleFully_advance (state : Inflater) :
    state.advance.settleFully = state.advance.unholdFully := by
  rw [settleFully, writeFully_other (advance_not_writing state)]

theorem settleFully_writing (state : Inflater) (token : Token)
    (hphase : state.phase = .writing token) :
    state.settleFully =
      (advance { state with content := state.content.spell token }).unholdFully := by
  rw [settleFully, writeFully_writing hphase]

theorem advance_leads {before : Inflater} {token : Token} {content : Content}
    (hphase : before.phase = .writing token)
    (hcontent : content = before.content.spell token)
    (hsize : content.size ≤ max limit before.content.size) :
    Leads limit before [] (advance { before with content := content }) := by
  subst hcontent
  rcases advance_eq { before with content := before.content.spell token } with
    ⟨place, phase, _, hadvance⟩
  have hadvance := hadvance before.phase
  constructor
  · rw [settleFully_advance, feedFully_nil, settleFully_writing before token hphase]
  · rw [hadvance, List.length_nil, Nat.add_zero]
  · rw [hadvance]
    exact Content.prefix_spell before.content token
  · rw [hadvance]
    exact hsize

theorem write_leads (state : Inflater) : Leads limit state [] (state.write limit) := by
  unfold write
  split
  · rename_i byte hphase
    split
    · rename_i hroom
      apply advance_leads limit hphase rfl
      rw [Content.size_spell, Token.size]
      omega
    · exact Leads.refl limit state
  · rename_i length distance hphase
    have hcopy := copyWithin_eq limit distance state.content length
    have hsize := size_copyWithin_le limit distance state.content length
    have hprefix := prefix_copyWithin limit distance state.content length
    generalize copyWithin limit distance state.content length = copied at hcopy hsize hprefix
    rcases copied with ⟨content, left⟩
    dsimp only at hcopy hsize hprefix ⊢
    split
    · rename_i hdone
      rw [hdone, Content.copy] at hcopy
      rw [advance_phase { state with content := content }]
      exact advance_leads limit hphase hcopy hsize
    · constructor
      · have hrest : settleFully
            { state with content := content, phase := .writing (.copy left distance) } =
              (advance { state with
                content := content.copy left distance,
                phase := .writing (.copy left distance) }).unholdFully :=
          settleFully_writing _ (.copy left distance) rfl
        have hphase' : advance { state with
              content := content.copy left distance, phase := .writing (.copy left distance) } =
            advance { state with content := content.copy left distance } :=
          advance_phase { state with content := content.copy left distance } _
        rw [hrest, hphase', feedFully_nil, settleFully_writing state _ hphase, Content.spell, hcopy]
      · rfl
      · exact hprefix
      · exact hsize
  · exact Leads.refl limit state

theorem unhold_leads (atHand : Bool) (state : Inflater) :
    Leads limit state [] (state.unhold limit atHand) := by
  unfold unhold
  split
  · rename_i hphase
    split
    · constructor
      · have hentered : (state.enter state.place).wantsBit = true := rfl
        rw [settleFully_of_wantsBit hentered, feedFully_nil, settleFully,
          writeFully_other (by simp [hphase]), unholdFully_holding hphase]
      · rfl
      · exact List.prefix_rfl
      · exact Nat.le_max_right _ _
    · exact Leads.refl limit state
  · exact Leads.refl limit state

theorem settle_leads (atHand : Bool) (state : Inflater) :
    Leads limit state [] (state.settle limit atHand) :=
  (write_leads limit state).trans limit (unhold_leads limit atHand _)

/-- What goes on when only a bit, an end or more room can help. -/
def Settled (state : Inflater) : Prop :=
  state.wantsBit = true ∨ state.isFinished = true ∨ state.hasFailed = true ∨
    limit ≤ state.content.size

theorem write_stops (state : Inflater) (token : Token)
    (hwriting : (state.write limit).phase = .writing token) :
    0 < token.size ∧ limit ≤ (state.write limit).content.size := by
  unfold write at hwriting ⊢
  split at hwriting
  · rename_i byte hphase
    split at hwriting
    · exact absurd hwriting (advance_not_writing _ token)
    · rename_i hfull
      rw [hphase] at hwriting
      injection hwriting with htoken
      rw [if_neg hfull, ← htoken]
      exact ⟨Nat.one_pos, Nat.le_of_not_lt hfull⟩
  · rename_i length distance hphase
    dsimp only at hwriting ⊢
    split at hwriting
    · exact absurd hwriting (advance_not_writing _ token)
    · rename_i hmore
      injection hwriting with htoken
      rw [if_neg hmore, ← htoken]
      rcases copyWithin_stops limit distance state.content length with hdone | hfull
      · exact absurd hdone hmore
      · exact ⟨Nat.pos_of_ne_zero hmore, hfull⟩
  · rename_i hliteral hcopy
    cases token with
    | literal byte => exact absurd hwriting (hliteral byte)
    | copy length distance => exact absurd hwriting (hcopy length distance)

theorem settled_settle (atHand : Bool) (state : Inflater) :
    Settled limit (state.settle limit atHand) := by
  have hwrite := write_stops limit state
  unfold settle
  generalize state.write limit = written at hwrite
  unfold unhold
  cases hphase : written.phase with
  | holding =>
      dsimp only
      split
      · exact Or.inl rfl
      · rename_i hwaits
        rw [Bool.or_eq_true, decide_eq_true_eq, not_or] at hwaits
        exact Or.inr (Or.inr (Or.inr (Nat.le_of_not_lt hwaits.right)))
  | reading reader => exact Or.inl (wantsBit_iff.mpr ⟨reader, hphase⟩)
  | writing token => exact Or.inr (Or.inr (Or.inr (hwrite token hphase).right))
  | finished => exact Or.inr (Or.inl (isFinished_iff.mpr hphase))
  | failed => exact Or.inr (Or.inr (Or.inl (hasFailed_iff.mpr hphase)))

/-!
## Runs
-/

theorem feed_leads {state : Inflater} (hwants : state.wantsBit = true) (bit : Bool) :
    Leads limit state [bit] (state.feed bit).1 := by
  rcases feed_eq hwants bit with ⟨place, phase, hfeed⟩
  constructor
  · rw [settleFully_of_wantsBit hwants, feedFully_cons, feedFully_nil]
  · rw [hfeed, List.length_singleton]
  · rw [hfeed]
  · rw [hfeed]
    exact Nat.le_max_right _ _

theorem runFrom_leads {stretch : Stretch} {look : Lookahead} {before after : Inflater}
    {bits rest : List Bool}
    (hrun : runFrom limit stretch look before bits = (after, rest)) :
    ∃ used, bits = used ++ rest ∧ Leads limit before used after ∧ Settled limit after ∧
      (rest = [] ∨ after.wantsBit = false) := by
  induction bits generalizing look before with
  | nil =>
      rw [runFrom, Prod.mk.injEq] at hrun
      rcases hrun with ⟨hafter, hrest⟩
      rw [← hafter, ← hrest]
      exact ⟨[], rfl, settle_leads limit _ before, settled_settle limit _ before, Or.inl rfl⟩
  | cons bit more ih =>
      rw [runFrom] at hrun
      have hleads := settle_leads limit (before.hasByte look) before
      have hsettled := settled_settle limit (before.hasByte look) before
      generalize before.settle limit (before.hasByte look) = state at hrun hleads hsettled
      dsimp only at hrun
      split at hrun
      · rename_i hwants
        rcases ih hrun with ⟨used, hmore, hrest, hend⟩
        refine ⟨bit :: used, by rw [hmore, List.cons_append], ?_, hend⟩
        exact (hleads.trans limit (feed_leads limit hwants bit)).trans limit hrest
      · rename_i hwants
        rw [Prod.mk.injEq] at hrun
        rcases hrun with ⟨hafter, hrest⟩
        rw [← hafter, ← hrest]
        exact ⟨[], rfl, hleads, hsettled, Or.inr (Bool.eq_false_iff.mpr hwants)⟩

theorem run_leads {before after : Inflater} {bits rest : List Bool}
    (hrun : before.run limit bits = (after, rest)) :
    ∃ used, bits = used ++ rest ∧ Leads limit before used after ∧ Settled limit after ∧
      (rest = [] ∨ after.wantsBit = false) :=
  runFrom_leads limit hrun

end Limit

/-!
## Content
-/

theorem content_unholdFully (state : Inflater) : state.unholdFully.content = state.content := by
  unfold unholdFully
  split
  · rfl
  · rfl

theorem content_settleFully {state : Inflater} {token : Token}
    (hphase : state.phase = .writing token) :
    state.settleFully.content = state.content.spell token := by
  rcases advance_eq { state with content := state.content.spell token } with
    ⟨place, phase, _, hadvance⟩
  have hadvance := hadvance state.phase
  rw [settleFully, content_unholdFully, writeFully_writing hphase, hadvance]

theorem prefix_settleFully (state : Inflater) :
    state.content.toList <+: state.settleFully.content.toList := by
  cases hphase : state.phase with
  | writing token =>
      rw [content_settleFully hphase]
      exact Content.prefix_spell state.content token
  | holding =>
      rw [settleFully, content_unholdFully, writeFully_other (by simp [hphase])]
  | reading reader =>
      rw [settleFully, content_unholdFully, writeFully_other (by simp [hphase])]
  | finished =>
      rw [settleFully, content_unholdFully, writeFully_other (by simp [hphase])]
  | failed =>
      rw [settleFully, content_unholdFully, writeFully_other (by simp [hphase])]

theorem prefix_feedFully (state : Inflater) (bits : List Bool) :
    state.content.toList <+: (state.feedFully bits).content.toList := by
  induction bits generalizing state with
  | nil => exact List.prefix_rfl
  | cons bit rest ih =>
      rw [feedFully_cons]
      apply List.IsPrefix.trans _ (ih _)
      apply List.IsPrefix.trans _ (prefix_settleFully _)
      cases hwants : state.wantsBit with
      | true =>
          rcases feed_eq hwants bit with ⟨place, phase, hfeed⟩
          rw [hfeed]
      | false =>
          rw [feed_of_not_wantsBit hwants]

end Inflater
end BoundedZlib
