import BoundedZlib.Deflate.Matcher

/-!
# Spelling data by tokens

Whatever places the encoder has noted, and however much effort it spends, the
tokens that it chooses stand for the data: a copy is taken only as far as the
bytes agree.  Divided into blocks they are the same tokens, and every block but
the last spells enough to be closed.
-/

namespace BoundedZlib
namespace Token

/-!
## Tokens that stand for data
-/

/-- The token stands for the data at a place. -/
inductive Fits (data : Content) (place : Nat) : Token → Prop where
  | literal
      (hplace : place < data.size) :
      Fits data place (.literal (data.getD place 0))
  | copy {length distance : Nat}
      (hlength : minLength ≤ length ∧ length ≤ maxCopy)
      (hdistance : 1 ≤ distance ∧ distance ≤ maxDistance)
      (hback : distance ≤ place)
      (hstop : place + length ≤ data.size)
      (hagree : ∀ i, i < length → data.getD (place + i) 0 = data.getD (place - distance + i) 0) :
      Fits data place (.copy length distance)

/-- The tokens stand for the data from one place to another. -/
inductive Cover (data : Content) : (start : Nat) → List Token → (stop : Nat) → Prop where
  | nil {place : Nat} : Cover data place [] place
  | cons {place stop : Nat} {token : Token} {rest : List Token}
      (htoken : Fits data place token)
      (hrest : Cover data (place + token.size) rest stop) :
      Cover data place (token :: rest) stop

variable {data : Content} {start middle stop place : Nat} {token : Token} {tokens more : List Token}

theorem Fits.size_pos (hfits : Fits data place token) : 0 < token.size := by
  cases hfits with
  | literal hplace => exact Nat.one_pos
  | copy hlength => exact Nat.lt_of_lt_of_le (by decide) hlength.left

theorem Fits.size_le (hfits : Fits data place token) : token.size ≤ maxCopy := by
  cases hfits with
  | literal hplace => exact (by decide : 1 ≤ maxCopy)
  | copy hlength => exact hlength.right

theorem Fits.stop_le (hfits : Fits data place token) : place + token.size ≤ data.size := by
  cases hfits with
  | literal hplace => exact hplace
  | copy _ _ _ hstop => exact hstop

theorem totalSize_append (tokens more : List Token) :
    totalSize (tokens ++ more) = totalSize tokens + totalSize more := by
  induction tokens with
  | nil => exact (Nat.zero_add _).symm
  | cons token rest ih =>
      rw [List.cons_append, totalSize, totalSize, ih, Nat.add_assoc]

theorem Cover.stop_eq (hcover : Cover data start tokens stop) :
    stop = start + totalSize tokens := by
  induction hcover with
  | nil => rfl
  | cons _ _ ih => rw [ih, totalSize, Nat.add_assoc]

theorem Cover.stop_le (hcover : Cover data start tokens stop)
    (hstart : start ≤ data.size) :
    stop ≤ data.size := by
  induction hcover with
  | nil => exact hstart
  | cons htoken _ ih => exact ih htoken.stop_le

theorem Cover.append (hfront : Cover data start tokens middle)
    (hback : Cover data middle more stop) :
    Cover data start (tokens ++ more) stop := by
  induction hfront with
  | nil => exact hback
  | cons htoken _ ih => exact .cons htoken (ih hback)

theorem Cover.split (hcover : Cover data start (tokens ++ more) stop) :
    Cover data start tokens (start + totalSize tokens) ∧
      Cover data (start + totalSize tokens) more stop := by
  induction tokens generalizing start with
  | nil => exact ⟨.nil, hcover⟩
  | cons token rest ih =>
      cases hcover with
      | cons htoken hrest =>
          rcases ih hrest with ⟨hfront, hback⟩
          rw [Nat.add_assoc] at hfront hback
          exact ⟨.cons htoken hfront, hback⟩

theorem Cover.snoc (hcover : Cover data start tokens place) (hfits : Fits data place token) :
    Cover data start (tokens ++ [token]) (place + token.size) :=
  hcover.append (.cons hfits .nil)

theorem Cover.size_le (hcover : Cover data start tokens stop) :
    ∀ token ∈ tokens, token.size ≤ maxCopy := by
  induction hcover with
  | nil =>
      intro token hmem
      cases hmem
  | cons htoken _ ih =>
      intro token hmem
      rcases List.mem_cons.mp hmem with hfirst | hrest
      · rw [hfirst]
        exact htoken.size_le
      · exact ih token hrest

end Token

/-!
## Choosing tokens
-/

namespace Matcher

open Token

variable {data : Content} {here : Nat}

theorem agreement_le (there most : Nat) : agreement data here there most ≤ most := by
  induction most generalizing here there with
  | zero => exact Nat.le_refl 0
  | succ most ih =>
      rw [agreement]
      split
      · exact Nat.succ_le_succ (ih (there + 1))
      · exact Nat.zero_le _

theorem getD_of_lt_agreement {there most i : Nat}
    (hi : i < agreement data here there most) :
    data.getD (here + i) 0 = data.getD (there + i) 0 := by
  induction most generalizing here there i with
  | zero => exact absurd hi (Nat.not_lt_zero i)
  | succ most ih =>
      rw [agreement] at hi
      split at hi
      next hsame =>
        cases i with
        | zero => exact hsame
        | succ i =>
            have hnext := ih (Nat.lt_of_succ_lt_succ hi)
            rw [Nat.add_right_comm, Nat.add_right_comm there] at hnext
            exact hnext
      · exact absurd hi (Nat.not_lt_zero i)

/-- A copy of this length and distance, if it copies anything, may be taken at a place. -/
structure Sound (data : Content) (here most : Nat) (best : Nat × Nat) : Prop where
  length_le : best.1 ≤ most
  distance : 0 < best.1 → 1 ≤ best.2 ∧ best.2 ≤ maxDistance ∧ best.2 ≤ here
  agree : ∀ i, i < best.1 → data.getD (here + i) 0 = data.getD (here - best.2 + i) 0

theorem longest_sound {most : Nat} {best : Nat × Nat} (effort : Nat) (candidates : List Nat)
    (hbest : Sound data here most best) :
    Sound data here most (longest data here most effort candidates best) := by
  induction effort generalizing candidates best with
  | zero =>
      rw [longest]
      exact hbest
  | succ effort ih =>
      cases candidates with
      | nil => exact hbest
      | cons there others =>
          rw [longest]
          split
          next hcandidate =>
            apply ih
            split
            next hlonger =>
              have hthere : here - (here - there) = there := by omega
              refine ⟨agreement_le there most, fun _ => by omega, ?_⟩
              intro i hi
              rw [hthere]
              exact getD_of_lt_agreement hi
            · exact hbest
          · exact hbest

theorem choose_eq (effort : Nat) (data : Content) (seen : Sightings) (here left : Nat) :
    ∃ candidates, choose effort data seen here left =
      if minLength ≤ (longest data here (min left maxCopy) effort candidates (0, 0)).1 then
        .copy (longest data here (min left maxCopy) effort candidates (0, 0)).1
          (longest data here (min left maxCopy) effort candidates (0, 0)).2
      else
        .literal (data.getD here 0) :=
  ⟨_, rfl⟩

theorem choose_fits (effort : Nat) (seen : Sightings) {left : Nat}
    (hpos : 0 < left)
    (hleft : here + left ≤ data.size) :
    Fits data here (choose effort data seen here left) ∧
      (choose effort data seen here left).size ≤ left := by
  have hnone : Sound data here (min left maxCopy) (0, 0) :=
    ⟨Nat.zero_le _, fun h => absurd h (Nat.lt_irrefl 0), fun i hi => absurd hi (Nat.not_lt_zero i)⟩
  rcases choose_eq effort data seen here left with ⟨candidates, hchoose⟩
  rw [hchoose]
  rcases longest_sound effort candidates hnone with
    ⟨hlength, hdistance, hagree⟩
  rcases Nat.le_min.mp hlength with ⟨hmost, hmax⟩
  split
  next hlong =>
    rcases hdistance (Nat.lt_of_lt_of_le (by decide) hlong) with ⟨hnear, hfar, hback⟩
    constructor
    · exact .copy ⟨hlong, hmax⟩ ⟨hnear, hfar⟩ hback
        (Nat.le_trans (Nat.add_le_add_left hmost here) hleft) hagree
    · exact hmost
  · exact ⟨.literal (Nat.lt_of_lt_of_le (Nat.lt_add_of_pos_right hpos) hleft), hpos⟩

/--
Spelling ends with tokens up to the place where to stop, if there are tokens up
to the place that the latest one covers.
-/
theorem spell_cover (effort : Nat) {start stop left covered : Nat} {seen : Sightings}
    {tokens : Array Token}
    (hcovered : covered ≤ left)
    (hleft : left ≤ stop)
    (hstop : stop ≤ data.size)
    (htokens : Cover data start tokens.toList (stop - left + covered)) :
    Cover data start (spell effort data stop left covered seen tokens).1.toList stop := by
  induction left generalizing covered seen tokens with
  | zero =>
      have hnone : covered = 0 := Nat.le_zero.mp hcovered
      rw [hnone] at htokens
      rw [spell]
      exact htokens
  | succ left ih =>
      cases covered with
      | succ covered =>
          rw [spell]
          apply ih (Nat.le_of_succ_le_succ hcovered) (Nat.le_of_succ_le hleft)
          have hplace : stop - (left + 1) + (covered + 1) = stop - left + covered := by omega
          rw [← hplace]
          exact htokens
      | zero =>
          have hhere : stop - (left + 1) + (left + 1) ≤ data.size := by omega
          rcases choose_fits effort seen (Nat.zero_lt_succ left) hhere with ⟨hfits, hsize⟩
          have hpos := hfits.size_pos
          rw [spell]
          generalize choose effort data seen (stop - (left + 1)) (left + 1) = token
            at hfits hsize hpos
          apply ih (by omega) (Nat.le_of_succ_le hleft)
          have hplace : stop - left + (token.size - 1) = stop - (left + 1) + token.size := by omega
          rw [Array.toList_push, hplace]
          exact htokens.snoc hfits

end Matcher

/-!
## Dividing into blocks
-/

namespace Block

open Token

theorem flatten_divide (tokens : List Token) (size : Nat) (group : Array Token) :
    (divide tokens size group).flatten = group.toList ++ tokens := by
  induction tokens generalizing size group with
  | nil =>
      rw [divide]
      split
      next hempty =>
        rw [Array.isEmpty_iff.mp hempty]
        rfl
      · simp
  | cons token rest ih =>
      simp only [divide]
      split
      · rw [List.flatten_cons, ih, Array.toList_push]
        simp
      · rw [ih, Array.toList_push]
        simp

theorem totalSize_of_mem_divide {tokens : List Token} {size : Nat} {group : Array Token}
    (htokens : ∀ token ∈ tokens, token.size ≤ maxCopy)
    (hsize : totalSize group.toList = size)
    (hopen : size < closeAt) :
    ∀ part ∈ divide tokens size group, totalSize part < closeAt + maxCopy := by
  induction tokens generalizing size group with
  | nil =>
      intro part hmem
      rw [divide] at hmem
      split at hmem
      · cases hmem
      · rw [List.mem_singleton.mp hmem, hsize]
        exact Nat.lt_add_right maxCopy hopen
  | cons token rest ih =>
      have hrest : ∀ token ∈ rest, token.size ≤ maxCopy :=
        fun token hmem => htokens token (List.mem_cons_of_mem _ hmem)
      have htoken := htokens token List.mem_cons_self
      have hgroup : totalSize (group.push token).toList = size + token.size := by
        rw [Array.toList_push, totalSize_append, hsize]
        rfl
      simp only [divide]
      split
      next hclose =>
        intro part hmem
        rcases List.mem_cons.mp hmem with hfirst | hother
        · rw [hfirst, hgroup]
          exact Nat.add_lt_add_of_lt_of_le hopen htoken
        · have hempty : totalSize (#[] : Array Token).toList = 0 := rfl
          exact ih hrest hempty (by decide) part hother
      next hclose => exact ih hrest hgroup (Nat.lt_of_not_le hclose)

/-- Every block but the last spells enough to be closed. -/
theorem length_divide_le (tokens : List Token) (size : Nat) (group : Array Token)
    (hsize : totalSize group.toList = size) :
    closeAt * (divide tokens size group).length ≤ size + totalSize tokens + closeAt := by
  induction tokens generalizing size group with
  | nil =>
      rw [divide]
      split
      · exact Nat.zero_le _
      · exact Nat.le_add_left closeAt _
  | cons token rest ih =>
      have hgroup : totalSize (group.push token).toList = size + token.size := by
        rw [Array.toList_push, totalSize_append, hsize]
        rfl
      simp only [divide]
      split
      next hclose =>
        have hrest := ih 0 #[] rfl
        rw [List.length_cons, Nat.mul_succ, totalSize]
        omega
      · have hrest := ih _ _ hgroup
        rw [totalSize]
        omega

end Block
end BoundedZlib
