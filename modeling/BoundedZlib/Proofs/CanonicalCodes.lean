import Mathlib.Algebra.BigOperators.Ring.List
import BoundedZlib.Proofs.Faults
import BoundedZlib.Proofs.PackedTrees

/-!
# Trees of canonical codes

The tree grown from code lengths reads exactly the codes that the lengths
determine.  There is a tree if the codes have space enough, and it assigns every
code if they take up all of it.
-/

namespace BoundedZlib

theorem Format.IsCode.symbol_lt {lengths : List Nat} {symbol : Nat} {bits : List Bool}
    (hcode : IsCode lengths symbol bits) :
    symbol < lengths.length := by
  rcases hcode with ⟨hpos, hlength, _⟩
  apply Nat.lt_of_not_le
  intro hle
  rw [codeLength, List.getD_eq_getElem?_getD, List.getElem?_eq_none hle, Option.getD_none]
    at hlength
  omega

namespace CodeTree

/-!
## Growing
-/

/-- A subtree at a depth has taken entries from the front of a list and left the others. -/
structure Fills (tree : CodeTree) (depth : Nat) (list left : List (Nat × Nat)) : Prop where
  split : list = tree.entries depth ++ left
  packed : tree.Packed
  full : tree.isComplete = true ∨ left = []

theorem Fills.fork {zero one : CodeTree} {depth : Nat} {list middle left : List (Nat × Nat)}
    (hzero : zero.Fills (depth + 1) list middle)
    (hone : one.Fills (depth + 1) middle left) :
    (fork zero one).Fills depth list left := by
  constructor
  · rw [hzero.split, hone.split, entries, List.append_assoc]
  · refine ⟨hzero.packed, hone.packed, ?_⟩
    rcases hzero.full with hcomplete | hmiddle
    · exact Or.inl hcomplete
    · apply Or.inr
      intro other
      have hsplit := hone.split
      rw [hmiddle] at hsplit
      rw [entries_eq_nil_iff one other (depth + 1)]
      exact (List.append_eq_nil_iff.mp hsplit.symm).left
  · rcases hone.full with hcomplete | hleft
    · rcases hzero.full with hcompleteZero | hmiddle
      · exact Or.inl (by rw [isComplete, hcompleteZero, hcomplete]; rfl)
      · have hsplit := hone.split
        rw [hmiddle] at hsplit
        exact Or.inr (List.append_eq_nil_iff.mp hsplit.symm).right
    · exact Or.inr hleft

theorem grow_fills {levels depth : Nat} {list : List (Nat × Nat)}
    (hsorted : list.Pairwise fun entry later => entry.1 ≤ later.1)
    (hleast : ∀ entry ∈ list, depth ≤ entry.1)
    (hmost : ∀ entry ∈ list, entry.1 ≤ depth + levels) :
    (grow levels depth list).1.Fills depth list (grow levels depth list).2 := by
  fun_induction grow levels depth list with
  | case1 => exact ⟨rfl, trivial, Or.inr rfl⟩
  | case2 => exact ⟨rfl, trivial, Or.inl rfl⟩
  | case3 depth length symbol rest hne =>
      have hleast' := hleast (length, symbol) (by simp)
      have hmost' := hmost (length, symbol) (by simp)
      exact absurd (Nat.le_antisymm hmost' hleast') hne
  | case4 depth length symbol rest hne levels zero left hzero one left' hone ihZero ihOne =>
      have hdeeper : ∀ entry ∈ (length, symbol) :: rest, depth + 1 ≤ entry.1 := by
        intro entry hmem
        have hfirst := hleast (length, symbol) (by simp)
        cases hmem with
        | head => exact Nat.lt_of_le_of_ne hfirst (Ne.symm hne)
        | tail _ hmem =>
            have hle := List.rel_of_pairwise_cons hsorted hmem
            exact Nat.le_trans (Nat.lt_of_le_of_ne hfirst (Ne.symm hne)) hle
      have hmost' : ∀ entry ∈ (length, symbol) :: rest, entry.1 ≤ depth + 1 + levels := by
        intro entry hmem
        have hle := hmost entry hmem
        omega
      have hfillsZero := ihZero hsorted hdeeper hmost'
      rw [hzero] at hfillsZero
      have hsplit := hfillsZero.split
      have hleft : left.Sublist ((length, symbol) :: rest) := by
        rw [hsplit]
        exact List.sublist_append_right _ _
      have hfillsOne := ihOne (hsorted.sublist hleft)
        (fun entry hmem => hdeeper entry (hleft.subset hmem))
        (fun entry hmem => hmost' entry (hleft.subset hmem))
      rw [hone] at hfillsOne
      exact hfillsZero.fork hfillsOne

/-!
## The order of codes
-/

def Before (entry other : Nat × Nat) : Prop :=
  entry.1 < other.1 ∨ entry.1 = other.1 ∧ entry.2 < other.2

instance (entry other : Nat × Nat) : Decidable (Before entry other) :=
  inferInstanceAs (Decidable (_ ∨ _))

theorem zipIdx_eq_map_range (lengths : List Nat) :
    lengths.zipIdx = (List.range lengths.length).map fun symbol =>
      (Format.codeLength lengths symbol, symbol) := by
  apply List.ext_getElem
  · simp
  · intro i hleft hright
    have hlt : i < lengths.length := by simpa using hleft
    simp [Format.codeLength, hlt]

theorem order_pairwise (lengths : List Nat) : (order lengths).Pairwise Before := by
  have hsymbols : lengths.zipIdx.Pairwise fun entry other => entry.2 < other.2 := by
    rw [zipIdx_eq_map_range]
    exact List.pairwise_map.mpr List.pairwise_lt_range
  rw [order, List.pairwise_flatMap]
  constructor
  · intro i _
    apply List.Pairwise.imp_of_mem _ (hsymbols.filter _)
    intro entry other hentry hother hlt
    have hkey := (List.mem_filter.mp hentry).right
    have hkey' := (List.mem_filter.mp hother).right
    rw [beq_iff_eq] at hkey hkey'
    exact Or.inr ⟨hkey.trans hkey'.symm, hlt⟩
  · apply List.Pairwise.imp _ List.pairwise_lt_range
    intro i j hlt entry hentry other hother
    have hkey := (List.mem_filter.mp hentry).right
    have hkey' := (List.mem_filter.mp hother).right
    rw [beq_iff_eq] at hkey hkey'
    exact Or.inl (by omega)

theorem mem_order_iff {lengths : List Nat} {length symbol : Nat} :
    (length, symbol) ∈ order lengths ↔
      1 ≤ length ∧ length ≤ maxLength ∧ symbol < lengths.length ∧
        Format.codeLength lengths symbol = length := by
  rw [order, List.mem_flatMap]
  constructor
  · intro h
    rcases h with ⟨i, hi, hmem⟩
    have hrange := List.mem_range.mp hi
    rw [List.mem_filter, zipIdx_eq_map_range, List.mem_map] at hmem
    rcases hmem with ⟨⟨symbol', hsymbol, hentry⟩, hkey⟩
    rw [Prod.mk.injEq] at hentry
    rw [← hentry.right, ← hentry.left]
    have hlength : length = i + 1 := beq_iff_eq.mp hkey
    exact ⟨by omega, by omega, List.mem_range.mp hsymbol, rfl⟩
  · intro h
    rcases h with ⟨hleast, hmost, hsymbol, hlength⟩
    refine ⟨length - 1, List.mem_range.mpr (by omega), ?_⟩
    rw [List.mem_filter, zipIdx_eq_map_range, List.mem_map]
    constructor
    · exact ⟨symbol, List.mem_range.mpr hsymbol, by rw [hlength]⟩
    · rw [beq_iff_eq, Nat.sub_add_cancel hleast]

theorem sum_order (lengths : List Nat) (value : Nat × Nat → Nat) :
    ((order lengths).map value).sum =
      ((List.range lengths.length).map fun symbol =>
        if 1 ≤ Format.codeLength lengths symbol ∧ Format.codeLength lengths symbol ≤ maxLength then
          value (Format.codeLength lengths symbol, symbol)
        else 0).sum := by
  have hlevels (list : List (Nat × Nat)) (levels : Nat) :
      (((List.range levels).flatMap fun i => list.filter fun entry => entry.1 == i + 1).map
        value).sum =
      (list.map fun entry => if 1 ≤ entry.1 ∧ entry.1 ≤ levels then value entry else 0).sum := by
    induction levels with
    | zero =>
        have hnone (entry : Nat × Nat) :
            (if 1 ≤ entry.1 ∧ entry.1 ≤ 0 then value entry else 0) = 0 := if_neg (by omega)
        simp only [hnone, List.map_const', List.sum_replicate_nat]
        simp
    | succ levels ih =>
        rw [List.range_succ, List.flatMap_append, List.map_append, List.sum_append_nat, ih]
        clear ih
        induction list with
        | nil => simp
        | cons entry rest ih =>
            simp only [List.flatMap_cons, List.flatMap_nil, List.append_nil, List.map_cons,
              List.sum_cons, List.filter_cons, beq_iff_eq] at ih ⊢
            by_cases hkey : entry.1 = levels + 1
            · simp [hkey, Nat.not_succ_le_self levels]
              omega
            · have hle : entry.1 ≤ levels + 1 ↔ entry.1 ≤ levels := by omega
              simp only [hkey, hle, if_false]
              omega
  rw [order, hlevels, zipIdx_eq_map_range, List.map_map]
  rfl

theorem entrySpace_order {lengths : List Nat}
    (hmost : ∀ length ∈ lengths, length ≤ maxLength) :
    entrySpace (order lengths) = Format.codeSpace lengths := by
  have hmap : lengths = (List.range lengths.length).map (Format.codeLength lengths) := by
    have hfst := congrArg (List.map Prod.fst) (zipIdx_eq_map_range lengths)
    rw [List.zipIdx_map_fst, List.map_map] at hfst
    exact hfst
  have hspace : Format.codeSpace lengths =
      ((List.range lengths.length).map fun symbol =>
        if Format.codeLength lengths symbol = 0 then 0
        else 2 ^ (15 - Format.codeLength lengths symbol)).sum := by
    conv => lhs; rw [Format.codeSpace, hmap, List.map_map]
    rfl
  rw [entrySpace, sum_order, hspace]
  congr 1
  apply List.map_congr_left
  intro symbol hmem
  have hlt := List.mem_range.mp hmem
  have hle : Format.codeLength lengths symbol ≤ maxLength := by
    have hlength : Format.codeLength lengths symbol = lengths[symbol] := by
      simp [Format.codeLength, hlt]
    rw [hlength]
    exact hmost _ (List.getElem_mem hlt)
  by_cases hzero : Format.codeLength lengths symbol = 0
  · simp [hzero]
  · have hleast : 1 ≤ Format.codeLength lengths symbol := Nat.one_le_iff_ne_zero.mpr hzero
    simp [hzero, hleast, hle]

/-- The space of the codes that come first counts the codes that the value skips. -/
theorem entrySpace_front {lengths : List Nat} {front back : List (Nat × Nat)}
    {length symbol : Nat}
    (horder : order lengths = front ++ (length, symbol) :: back) :
    entrySpace front = Format.codeValue lengths symbol * 2 ^ (maxLength - length) := by
  have hentry : (length, symbol) ∈ order lengths := by
    rw [horder]
    simp
  rcases mem_order_iff.mp hentry with ⟨_, hmost, _, hlength⟩
  have hpairwise := order_pairwise lengths
  rw [horder, List.pairwise_append, List.pairwise_cons] at hpairwise
  rcases hpairwise with ⟨_, ⟨hback, _⟩, hcross⟩
  have hirrefl (entry other : Nat × Nat) (hle : entry = other ∨ Before other entry) :
      ¬ Before entry other := by
    rcases hle with heq | hbefore
    · rw [heq]
      simp [Before]
    · simp only [Before] at hbefore ⊢
      omega
  -- The entries in front are those that come before, so both sides sum over them.
  have hsum : entrySpace front =
      ((order lengths).map fun entry =>
        if Before entry (length, symbol) then 2 ^ (maxLength - entry.1) else 0).sum := by
    have hfront : (front.map fun entry =>
        if Before entry (length, symbol) then 2 ^ (maxLength - entry.1) else 0) =
          front.map fun entry => 2 ^ (maxLength - entry.1) := by
      apply List.map_congr_left
      intro entry hmem
      exact if_pos (hcross entry hmem (length, symbol) (by simp))
    have hrest : (((length, symbol) :: back).map fun entry =>
        if Before entry (length, symbol) then 2 ^ (maxLength - entry.1) else 0) =
          ((length, symbol) :: back).map fun _ => 0 := by
      apply List.map_congr_left
      intro entry hmem
      apply if_neg
      apply hirrefl
      cases hmem with
      | head => exact Or.inl rfl
      | tail _ hmem => exact Or.inr (hback entry hmem)
    rw [horder, List.map_append, hfront, hrest, List.sum_append_nat, entrySpace]
    simp [List.map_const']
  rw [hsum, sum_order, Format.codeValue]
  rw [← List.sum_map_mul_right]
  congr 1
  apply List.map_congr_left
  intro earlier _
  have hprecedes : Format.Precedes lengths earlier symbol ↔
      0 < Format.codeLength lengths earlier ∧
        Before (Format.codeLength lengths earlier, earlier) (length, symbol) := by
    rw [Format.Precedes, hlength]
    exact Iff.rfl
  rw [hlength]
  by_cases hbefore : Before (Format.codeLength lengths earlier, earlier) (length, symbol)
  · have hle : Format.codeLength lengths earlier ≤ length := by
      simp only [Before] at hbefore
      omega
    by_cases hpos : 0 < Format.codeLength lengths earlier
    · have hpow : maxLength - Format.codeLength lengths earlier =
          length - Format.codeLength lengths earlier + (maxLength - length) := by omega
      rw [if_pos ⟨hpos, Nat.le_trans hle hmost⟩, if_pos hbefore,
        if_pos (hprecedes.mpr ⟨hpos, hbefore⟩), hpow, Nat.pow_add]
    · rw [if_neg (fun hrange => hpos hrange.left), if_neg (fun h => hpos (hprecedes.mp h).left),
        Nat.zero_mul]
  · rw [if_neg hbefore, if_neg (fun h => hbefore (hprecedes.mp h).right), Nat.zero_mul, ite_self]

/-!
## Reading codes
-/

/-- A tree reads the codes that lengths determine. -/
def Decodes (tree : CodeTree) (lengths : List Nat) : Prop :=
  ∀ bits symbol, tree.reader.Reads bits symbol ↔ Format.IsCode lengths symbol bits

theorem grow_halves (lengths : List Nat) :
    let zero := grow (maxLength - 1) 1 (order lengths)
    let one := grow (maxLength - 1) 1 zero.2
    (fork zero.1 one.1).Fills 0 (order lengths) one.2 := by
  intro zero one
  have hsorted : (order lengths).Pairwise fun entry later => entry.1 ≤ later.1 := by
    apply (order_pairwise lengths).imp
    intro entry later hbefore
    simp only [Before] at hbefore
    omega
  have hrange : ∀ entry ∈ order lengths, 1 ≤ entry.1 ∧ entry.1 ≤ 1 + (maxLength - 1) := by
    intro entry hmem
    rcases mem_order_iff.mp hmem with ⟨hleast, hmost, _⟩
    exact ⟨hleast, hmost⟩
  have hzero : zero.1.Fills 1 (order lengths) zero.2 :=
    grow_fills hsorted (fun entry hmem => (hrange entry hmem).left)
      (fun entry hmem => (hrange entry hmem).right)
  have hleft : zero.2.Sublist (order lengths) := by
    rw [hzero.split]
    exact List.sublist_append_right _ _
  have hone : one.1.Fills 1 zero.2 one.2 :=
    grow_fills (hsorted.sublist hleft)
      (fun entry hmem => (hrange entry (hleft.subset hmem)).left)
      (fun entry hmem => (hrange entry (hleft.subset hmem)).right)
  exact hzero.fork hone

theorem ofLengths?_eq_some {lengths : List Nat} {tree : CodeTree}
    (htree : ofLengths? lengths = some tree) :
    tree.entries 0 = order lengths ∧ tree.Packed := by
  have hfills := grow_halves lengths
  simp only [ofLengths?] at htree
  split at htree
  · rename_i hempty
    injection htree with htree
    rw [List.isEmpty_iff] at hempty
    have hsplit := hfills.split
    have hpacked := hfills.packed
    rw [htree] at hsplit hpacked
    rw [hempty, List.append_nil] at hsplit
    exact ⟨hsplit.symm, hpacked⟩
  · cases htree

theorem deep_order (lengths : List Nat) :
    ∀ entry ∈ order lengths, entry.1 ≤ maxLength :=
  fun _ hmem => (mem_order_iff.mp hmem).right.left

theorem decodes_of_ofLengths? {lengths : List Nat} {tree : CodeTree}
    (htree : ofLengths? lengths = some tree)
    (hmost : ∀ length ∈ lengths, length ≤ maxLength) :
    tree.Decodes lengths := by
  intro bits symbol
  rcases ofLengths?_eq_some htree with ⟨hentries, hpacked⟩
  rw [reads_reader_iff hpacked (by rw [hentries]; exact deep_order lengths), hentries, Nat.zero_add]
  constructor
  · intro h
    rcases h with ⟨front, back, horder, hvalue⟩
    have hmem : (bits.length, symbol) ∈ order lengths := by
      rw [horder]
      simp
    rcases mem_order_iff.mp hmem with ⟨hleast, _, _, hlength⟩
    rw [entrySpace_front horder] at hvalue
    exact ⟨hleast, hlength.symm, Nat.eq_of_mul_eq_mul_right (Nat.two_pow_pos _) hvalue⟩
  · intro hcode
    have hsymbol := hcode.symbol_lt
    rcases hcode with ⟨hleast, hlength, hvalue⟩
    have hmax : bits.length ≤ maxLength := by
      rw [hlength, Format.codeLength, List.getD_eq_getElem?_getD, List.getElem?_eq_getElem hsymbol]
      exact hmost _ (List.getElem_mem hsymbol)
    have hmem : (bits.length, symbol) ∈ order lengths :=
      mem_order_iff.mpr ⟨hleast, hmax, hsymbol, hlength.symm⟩
    rcases List.append_of_mem hmem with ⟨front, back, horder⟩
    refine ⟨front, back, horder, ?_⟩
    rw [entrySpace_front horder, hvalue]

/-!
## Space for codes
-/

theorem isComplete_iff_of_ofLengths? {lengths : List Nat} {tree : CodeTree}
    (htree : ofLengths? lengths = some tree)
    (hmost : ∀ length ∈ lengths, length ≤ maxLength) :
    tree.isComplete = true ↔ Format.IsComplete lengths := by
  rcases ofLengths?_eq_some htree with ⟨hentries, _⟩
  have hdeep : ∀ entry ∈ tree.entries 0, entry.1 ≤ maxLength := by
    rw [hentries]
    exact deep_order lengths
  rw [Format.IsComplete, ← entrySpace_order hmost, ← hentries]
  constructor
  · intro hcomplete
    exact entrySpace_entries_of_isComplete hcomplete hdeep
  · intro hspace
    exact isComplete_of_entrySpace_eq hdeep hspace

theorem codeSpace_le_of_ofLengths? {lengths : List Nat} {tree : CodeTree}
    (htree : ofLengths? lengths = some tree)
    (hmost : ∀ length ∈ lengths, length ≤ maxLength) :
    Format.codeSpace lengths ≤ 2 ^ 15 := by
  rcases ofLengths?_eq_some htree with ⟨hentries, _⟩
  rw [← entrySpace_order hmost, ← hentries]
  apply entrySpace_entries_le
  rw [hentries]
  exact deep_order lengths

theorem exists_ofLengths? {lengths : List Nat}
    (hmost : ∀ length ∈ lengths, length ≤ maxLength)
    (hspace : Format.codeSpace lengths ≤ 2 ^ 15) :
    ∃ tree, ofLengths? lengths = some tree := by
  have hfills := grow_halves lengths
  simp only [ofLengths?]
  split
  · exact ⟨_, rfl⟩
  · rename_i hne
    exfalso
    apply hne
    rw [List.isEmpty_iff]
    rcases hfills.full with hcomplete | hleft
    · -- A complete tree leaves no space for an entry without a place.
      have hdeep := deep_order lengths
      rw [hfills.split] at hdeep
      have htaken := entrySpace_entries_of_isComplete hcomplete
        (fun entry hmem => hdeep entry (List.mem_append_left _ hmem))
      rw [← entrySpace_order hmost, hfills.split, entrySpace_append, htaken] at hspace
      cases hleft : (grow (maxLength - 1) 1 (grow (maxLength - 1) 1 (order lengths)).2).2 with
      | nil => rfl
      | cons entry rest =>
          rw [hleft, entrySpace_cons] at hspace
          have hpos := Nat.two_pow_pos (maxLength - entry.1)
          simp only [maxLength] at hspace hpos
          omega
    · exact hleft

theorem usable?_iff {lengths : List Nat}
    (hmost : ∀ length ∈ lengths, length ≤ maxLength) :
    (∃ tree, usable? lengths = some tree) ↔ Format.IsUsable lengths := by
  constructor
  · intro h
    rcases h with ⟨tree, husable⟩
    rw [usable?, Option.filter_eq_some_iff, Bool.or_eq_true, List.all_eq_true] at husable
    rcases husable with ⟨htree, hcomplete | hshort⟩
    · exact Or.inl ((isComplete_iff_of_ofLengths? htree hmost).mp hcomplete)
    · apply Or.inr
      constructor
      · exact codeSpace_le_of_ofLengths? htree hmost
      · intro length hmem
        exact of_decide_eq_true (hshort length hmem)
  · intro husable
    have hspace : Format.codeSpace lengths ≤ 2 ^ 15 := by
      rcases husable with hcomplete | hshort
      · exact Nat.le_of_eq hcomplete
      · exact hshort.left
    rcases exists_ofLengths? hmost hspace with ⟨tree, htree⟩
    refine ⟨tree, ?_⟩
    rw [usable?, Option.filter_eq_some_iff, Bool.or_eq_true, List.all_eq_true]
    refine ⟨htree, ?_⟩
    rcases husable with hcomplete | hshort
    · exact Or.inl ((isComplete_iff_of_ofLengths? htree hmost).mpr hcomplete)
    · exact Or.inr fun length hmem => decide_eq_true (hshort.right length hmem)

theorem complete?_iff {lengths : List Nat}
    (hmost : ∀ length ∈ lengths, length ≤ maxLength) :
    (∃ tree, complete? lengths = some tree) ↔ Format.IsComplete lengths := by
  constructor
  · intro h
    rcases h with ⟨tree, hcomplete⟩
    rw [complete?, Option.filter_eq_some_iff] at hcomplete
    exact (isComplete_iff_of_ofLengths? hcomplete.left hmost).mp hcomplete.right
  · intro hcomplete
    rcases exists_ofLengths? hmost (Nat.le_of_eq hcomplete) with ⟨tree, htree⟩
    refine ⟨tree, ?_⟩
    rw [complete?, Option.filter_eq_some_iff]
    exact ⟨htree, (isComplete_iff_of_ofLengths? htree hmost).mpr hcomplete⟩

/-!
## Unassigned codes
-/

section Unassigned

variable {tree zero one half : CodeTree} {lengths : List Nat} {bits rest : List Bool}

theorem not_refuses_of_isComplete (hcomplete : tree.isComplete = true) :
    ¬ tree.reader.Refuses bits := by
  induction tree generalizing bits with
  | unassigned => cases hcomplete
  | leaf symbol => exact BitReader.not_refuses_done
  | fork zero one ihZero ihOne =>
      rw [isComplete, Bool.and_eq_true] at hcomplete
      intro hrefuses
      cases bits with
      | nil => exact BitReader.not_refuses_bit_nil hrefuses
      | cons b rest =>
          have hrest := BitReader.refuses_bit_cons.mp hrefuses
          cases b with
          | false => exact ihZero hcomplete.left hrest
          | true => exact ihOne hcomplete.right hrest

theorem exists_reads_of_isComplete (hcomplete : tree.isComplete = true) :
    ∃ bits symbol, tree.reader.Reads bits symbol := by
  induction tree with
  | unassigned => cases hcomplete
  | leaf symbol => exact ⟨[], symbol, .done⟩
  | fork zero one ihZero _ =>
      rw [isComplete, Bool.and_eq_true] at hcomplete
      rcases ihZero hcomplete.left with ⟨rest, symbol, hreads⟩
      exact ⟨false :: rest, symbol, .bit hreads⟩

/-- Symbols all of which have their places at this depth make no fork. -/
theorem grow_flat {levels depth : Nat} {list : List (Nat × Nat)}
    (hflat : ∀ entry ∈ list, entry.1 = depth) :
    ((grow levels depth list).1 = unassigned ∨ (grow levels depth list).1.isComplete = true) ∧
      (grow levels depth list).2 ⊆ list := by
  fun_cases grow levels depth list with
  | case1 => exact ⟨Or.inl rfl, List.Subset.refl _⟩
  | case2 => exact ⟨Or.inr rfl, List.subset_cons_self _ _⟩
  | case3 _ _ _ _ hne => exact absurd (hflat _ List.mem_cons_self) hne
  | case4 _ _ _ _ hne => exact absurd (hflat _ List.mem_cons_self) hne

/-- Each half of a code that a block may use assigns every code or none. -/
theorem halves_of_usable? (husable : usable? lengths = some tree) :
    ∃ zero one, tree = fork zero one ∧ (zero = unassigned ∨ zero.isComplete = true) ∧
      (one = unassigned ∨ one.isComplete = true) := by
  rw [usable?, Option.filter_eq_some_iff, Bool.or_eq_true, List.all_eq_true] at husable
  rcases husable with ⟨htree, hcase⟩
  simp only [ofLengths?] at htree
  split at htree
  · injection htree with htree
    refine ⟨_, _, htree.symm, ?_⟩
    rcases hcase with hcomplete | hshort
    · rw [← htree, isComplete, Bool.and_eq_true] at hcomplete
      exact ⟨Or.inr hcomplete.left, Or.inr hcomplete.right⟩
    · have hflat : ∀ entry ∈ order lengths, entry.1 = 1 := by
        intro entry hmem
        rcases mem_order_iff.mp hmem with ⟨hleast, _, hsymbol, hlength⟩
        rw [Format.codeLength, List.getD_eq_getElem?_getD, List.getElem?_eq_getElem hsymbol,
          Option.getD_some] at hlength
        have hle := of_decide_eq_true (hshort _ (List.getElem_mem hsymbol))
        omega
      have hzero := @grow_flat (maxLength - 1) 1 _ hflat
      exact ⟨hzero.left, (grow_flat fun entry hmem => hflat entry (hzero.right hmem)).left⟩
  · cases htree

theorem refuses_half_iff (hhalf : half = unassigned ∨ half.isComplete = true) :
    half.reader.Refuses rest ↔ half = unassigned ∧ rest = [] := by
  rcases hhalf with hnone | hcomplete
  · rw [hnone, reader, BitReader.refuses_reject]
    exact (and_iff_right rfl).symm
  · constructor
    · intro hrefuses
      exact absurd hrefuses (not_refuses_of_isComplete hcomplete)
    · intro h
      rw [h.left] at hcomplete
      cases hcomplete

theorem reads_fork_cons {zero one : CodeTree} {b : Bool} {symbol : Nat} :
    (fork zero one).reader.Reads (b :: rest) symbol ↔
      (cond b one zero).reader.Reads rest symbol := by
  cases b with
  | false => exact BitReader.reads_bit_cons
  | true => exact BitReader.reads_bit_cons

theorem refuses_fork_cons {zero one : CodeTree} {b : Bool} :
    (fork zero one).reader.Refuses (b :: rest) ↔ (cond b one zero).reader.Refuses rest := by
  cases b with
  | false => exact BitReader.refuses_bit_cons
  | true => exact BitReader.refuses_bit_cons

/-- A code that a block may use refuses the bits with which no code begins. -/
theorem refuses_iff_isUnassigned (husable : usable? lengths = some tree)
    (hmost : ∀ length ∈ lengths, length ≤ maxLength) :
    tree.reader.Refuses bits ↔ Format.IsUnassigned lengths bits := by
  have hdecodes := decodes_of_ofLengths? (Option.filter_eq_some_iff.mp husable).left hmost
  rcases halves_of_usable? husable with ⟨zero, one, htree, hzero, hone⟩
  subst htree
  have hhalf : ∀ b, (cond b one zero) = unassigned ∨ (cond b one zero).isComplete = true := by
    intro b
    cases b with
    | false => exact hzero
    | true => exact hone
  constructor
  · intro h
    cases bits with
    | nil => exact absurd h BitReader.not_refuses_bit_nil
    | cons b rest =>
        rw [refuses_fork_cons, refuses_half_iff (hhalf b)] at h
        rcases h with ⟨hnone, hrest⟩
        rw [hrest]
        refine ⟨rfl, ?_⟩
        intro symbol code hcode hbegins
        rcases hbegins with ⟨more, hmore⟩
        rw [← hdecodes, ← hmore, List.singleton_append, reads_fork_cons, hnone] at hcode
        exact BitReader.not_reads_reject hcode
  · intro h
    rcases h with ⟨hlength, hnone⟩
    rcases List.length_eq_one_iff.mp hlength with ⟨b, hbits⟩
    rw [hbits, refuses_fork_cons, refuses_half_iff (hhalf b)]
    refine ⟨(hhalf b).resolve_right ?_, rfl⟩
    intro hcomplete
    rcases exists_reads_of_isComplete hcomplete with ⟨rest, symbol, hcode⟩
    rw [← reads_fork_cons, hdecodes] at hcode
    apply hnone symbol _ hcode
    rw [hbits]
    exact List.prefix_append [b] rest

end Unassigned

end CodeTree
end BoundedZlib
