import BoundedZlib.CodeTree
import BoundedZlib.Proofs.BitReading

/-!
# Packed code trees

Growing a tree from left to right leaves no gap before the last place taken.
In a tree without such gaps, the value of a code is the space that the entries
to its left take up.
-/

namespace BoundedZlib

def entrySpace (entries : List (Nat × Nat)) : Nat :=
  (entries.map fun entry => 2 ^ (CodeTree.maxLength - entry.1)).sum

theorem entrySpace_append (front back : List (Nat × Nat)) :
    entrySpace (front ++ back) = entrySpace front + entrySpace back := by
  simp [entrySpace]

theorem entrySpace_cons (entry : Nat × Nat) (rest : List (Nat × Nat)) :
    entrySpace (entry :: rest) = 2 ^ (CodeTree.maxLength - entry.1) + entrySpace rest := by
  simp [entrySpace]

namespace CodeTree

def entries : CodeTree → (depth : Nat) → List (Nat × Nat)
  | unassigned, _ => []
  | leaf symbol, depth => [(depth, symbol)]
  | fork zero one, depth => zero.entries (depth + 1) ++ one.entries (depth + 1)

/-- Whatever has a place to the right has no gap to its left. -/
def Packed : CodeTree → Prop
  | fork zero one => zero.Packed ∧ one.Packed ∧ (zero.isComplete ∨ ∀ depth, one.entries depth = [])
  | _ => True

theorem depth_le_of_mem_entries {tree : CodeTree} {depth : Nat} {entry : Nat × Nat}
    (hmem : entry ∈ tree.entries depth) :
    depth ≤ entry.1 := by
  induction tree generalizing depth with
  | unassigned => cases hmem
  | leaf symbol =>
      rw [entries, List.mem_singleton] at hmem
      exact Nat.le_of_eq (congrArg Prod.fst hmem).symm
  | fork zero one ihZero ihOne =>
      rw [entries, List.mem_append] at hmem
      rcases hmem with hmem | hmem
      · exact Nat.le_of_succ_le (ihZero hmem)
      · exact Nat.le_of_succ_le (ihOne hmem)

theorem entries_ne_nil_of_isComplete {tree : CodeTree} (depth : Nat)
    (hcomplete : tree.isComplete = true) :
    tree.entries depth ≠ [] := by
  induction tree generalizing depth with
  | unassigned => cases hcomplete
  | leaf symbol => simp [entries]
  | fork zero one ihZero _ =>
      rw [isComplete, Bool.and_eq_true] at hcomplete
      simp [entries, ihZero (depth + 1) hcomplete.left]

theorem entries_eq_nil_iff (tree : CodeTree) (depth other : Nat) :
    tree.entries depth = [] ↔ tree.entries other = [] := by
  induction tree generalizing depth other with
  | unassigned => simp [entries]
  | leaf symbol => simp [entries]
  | fork zero one ihZero ihOne =>
      rw [entries, entries, List.append_eq_nil_iff, List.append_eq_nil_iff,
        ihZero (depth + 1) (other + 1), ihOne (depth + 1) (other + 1)]

/-!
## Space
-/

private theorem two_pow_sub_succ {depth : Nat} (hdepth : depth < maxLength) :
    2 ^ (maxLength - depth) = 2 ^ (maxLength - (depth + 1)) + 2 ^ (maxLength - (depth + 1)) := by
  have hsucc : maxLength - depth = maxLength - (depth + 1) + 1 := by omega
  rw [hsucc, Nat.pow_succ]
  omega

variable {tree zero one : CodeTree} {depth : Nat}

theorem lt_maxLength_of_entries_fork
    (hne : (fork zero one).entries depth ≠ [])
    (hdeep : ∀ entry ∈ (fork zero one).entries depth, entry.1 ≤ maxLength) :
    depth < maxLength := by
  rcases List.exists_mem_of_ne_nil _ hne with ⟨entry, hmem⟩
  have hmost := hdeep entry hmem
  rw [entries, List.mem_append] at hmem
  rcases hmem with hmem | hmem
  · exact Nat.le_trans (depth_le_of_mem_entries hmem) hmost
  · exact Nat.le_trans (depth_le_of_mem_entries hmem) hmost

theorem entrySpace_entries_le
    (hdeep : ∀ entry ∈ tree.entries depth, entry.1 ≤ maxLength) :
    entrySpace (tree.entries depth) ≤ 2 ^ (maxLength - depth) := by
  induction tree generalizing depth with
  | unassigned => simp [entries, entrySpace]
  | leaf symbol => simp [entries, entrySpace]
  | fork zero one ihZero ihOne =>
      by_cases hnil : (fork zero one).entries depth = []
      · simp [hnil, entrySpace]
      · have hdepth := lt_maxLength_of_entries_fork hnil hdeep
        rw [entries] at hdeep ⊢
        have hzero := ihZero fun entry hmem => hdeep entry (List.mem_append_left _ hmem)
        have hone := ihOne fun entry hmem => hdeep entry (List.mem_append_right _ hmem)
        rw [entrySpace_append, two_pow_sub_succ hdepth]
        omega

theorem entrySpace_entries_of_isComplete
    (hcomplete : tree.isComplete = true)
    (hdeep : ∀ entry ∈ tree.entries depth, entry.1 ≤ maxLength) :
    entrySpace (tree.entries depth) = 2 ^ (maxLength - depth) := by
  induction tree generalizing depth with
  | unassigned => cases hcomplete
  | leaf symbol => simp [entries, entrySpace]
  | fork zero one ihZero ihOne =>
      have hdepth :=
        lt_maxLength_of_entries_fork (entries_ne_nil_of_isComplete depth hcomplete) hdeep
      rw [isComplete, Bool.and_eq_true] at hcomplete
      rw [entries] at hdeep ⊢
      have hzero := ihZero hcomplete.left
        fun entry hmem => hdeep entry (List.mem_append_left _ hmem)
      have hone := ihOne hcomplete.right
        fun entry hmem => hdeep entry (List.mem_append_right _ hmem)
      rw [entrySpace_append, two_pow_sub_succ hdepth, hzero, hone]

theorem isComplete_of_entrySpace_eq
    (hdeep : ∀ entry ∈ tree.entries depth, entry.1 ≤ maxLength)
    (hspace : entrySpace (tree.entries depth) = 2 ^ (maxLength - depth)) :
    tree.isComplete = true := by
  have hpos (depth : Nat) : 0 ≠ 2 ^ (maxLength - depth) :=
    Nat.ne_of_lt (Nat.two_pow_pos (maxLength - depth))
  induction tree generalizing depth with
  | unassigned => exact absurd hspace (hpos depth)
  | leaf symbol => rfl
  | fork zero one ihZero ihOne =>
      have hne : (fork zero one).entries depth ≠ [] := by
        intro hnil
        rw [hnil] at hspace
        exact hpos depth hspace
      have hdepth := lt_maxLength_of_entries_fork hne hdeep
      rw [entries] at hdeep hspace
      have hdeepZero : ∀ entry ∈ zero.entries (depth + 1), entry.1 ≤ maxLength :=
        fun entry hmem => hdeep entry (List.mem_append_left _ hmem)
      have hdeepOne : ∀ entry ∈ one.entries (depth + 1), entry.1 ≤ maxLength :=
        fun entry hmem => hdeep entry (List.mem_append_right _ hmem)
      have hzero := entrySpace_entries_le hdeepZero
      have hone := entrySpace_entries_le hdeepOne
      rw [entrySpace_append, two_pow_sub_succ hdepth] at hspace
      rw [isComplete, Bool.and_eq_true]
      constructor
      · exact ihZero hdeepZero (by omega)
      · exact ihOne hdeepOne (by omega)

/-!
## Codes in a packed tree
-/

private theorem append_eq_append_cons_iff {α : Type} {left right front back : List α} {entry : α} :
    left ++ right = front ++ entry :: back ↔
      (∃ between, left = front ++ entry :: between ∧ back = between ++ right) ∨
        ∃ between, front = left ++ between ∧ right = between ++ entry :: back := by
  constructor
  · intro h
    rcases List.append_eq_append_iff.mp h with ⟨between, hfront, hright⟩ | ⟨between, hleft, hback⟩
    · exact Or.inr ⟨between, hfront, hright⟩
    · cases between with
      | nil => exact Or.inr ⟨[], by simpa using hleft.symm, by simpa using hback.symm⟩
      | cons first between =>
          rw [List.cons_append, List.cons.injEq] at hback
          rw [← hback.left] at hleft
          exact Or.inl ⟨between, hleft, hback.right⟩
  · intro h
    rcases h with ⟨between, hleft, hback⟩ | ⟨between, hfront, hright⟩
    · rw [hleft, hback]
      simp
    · rw [hfront, hright]
      simp

private theorem toNat_reverse_cons (bit : Bool) (rest : List Bool) :
    Bits.toNat (bit :: rest).reverse =
      Bits.toNat rest.reverse + 2 ^ rest.length * bit.toNat := by
  rw [List.reverse_cons, Bits.toNat_append, List.length_reverse]
  simp [Bits.toNat]

/--
The bits lead to a symbol exactly if the symbol has an entry of that depth and
the bits count the space to its left.
-/
theorem reads_reader_iff
    (hpacked : tree.Packed)
    (hdeep : ∀ entry ∈ tree.entries depth, entry.1 ≤ maxLength)
    {bits : List Bool} {symbol : Nat} :
    tree.reader.Reads bits symbol ↔
      ∃ front back,
        tree.entries depth = front ++ (depth + bits.length, symbol) :: back ∧
          Bits.toNat bits.reverse * 2 ^ (maxLength - (depth + bits.length)) = entrySpace front := by
  induction tree generalizing depth bits with
  | unassigned => simp [reader, entries]
  | leaf found =>
      rw [reader, BitReader.reads_done, entries]
      constructor
      · intro h
        rcases h with ⟨hbits, hsymbol⟩
        subst hbits hsymbol
        exact ⟨[], [], rfl, by simp [Bits.toNat, entrySpace]⟩
      · intro h
        rcases h with ⟨front, back, hentries, _⟩
        cases front with
        | nil =>
            rw [List.nil_append, List.cons.injEq, Prod.mk.injEq] at hentries
            exact ⟨List.length_eq_zero_iff.mp (by omega), hentries.left.right⟩
        | cons first front =>
            rw [List.cons_append, List.cons.injEq] at hentries
            exact absurd hentries.right.symm (by simp)
  | fork zero one ihZero ihOne =>
      rcases hpacked with ⟨hpackedZero, hpackedOne, hgap⟩
      rw [entries] at hdeep ⊢
      have hdeepZero : ∀ entry ∈ zero.entries (depth + 1), entry.1 ≤ maxLength :=
        fun entry hmem => hdeep entry (List.mem_append_left _ hmem)
      have hdeepOne : ∀ entry ∈ one.entries (depth + 1), entry.1 ≤ maxLength :=
        fun entry hmem => hdeep entry (List.mem_append_right _ hmem)
      cases bits with
      | nil =>
          constructor
          · intro h
            exact absurd h BitReader.not_reads_bit_nil
          · intro h
            rcases h with ⟨front, back, hentries, _⟩
            have hmem : (depth + 0, symbol) ∈
                zero.entries (depth + 1) ++ one.entries (depth + 1) := by
              rw [hentries]
              simp
            rcases List.mem_append.mp hmem with hmem | hmem
            · exact absurd (depth_le_of_mem_entries hmem) (by simp)
            · exact absurd (depth_le_of_mem_entries hmem) (by simp)
      | cons b rest =>
          have hlength : depth + (b :: rest).length = depth + 1 + rest.length := by
            rw [List.length_cons]
            omega
          -- An entry to the right of the fork has the whole space of `zero` to its left.
          have hspaceZero : one.entries (depth + 1) ≠ [] →
              entrySpace (zero.entries (depth + 1)) = 2 ^ (maxLength - (depth + 1)) := by
            intro hne
            rcases hgap with hcomplete | hempty
            · exact entrySpace_entries_of_isComplete hcomplete hdeepZero
            · exact absurd (hempty (depth + 1)) hne
          have hunits : depth + 1 + rest.length ≤ maxLength →
              2 ^ rest.length * 2 ^ (maxLength - (depth + 1 + rest.length)) =
                2 ^ (maxLength - (depth + 1)) := by
            intro hle
            rw [← Nat.pow_add]
            congr 1
            omega
          rw [hlength, toNat_reverse_cons]
          cases b with
          | false =>
              have hread : (fork zero one).reader.Reads (false :: rest) symbol ↔
                  zero.reader.Reads rest symbol := BitReader.reads_bit_cons
              rw [hread, ihZero hpackedZero hdeepZero]
              constructor
              · intro h
                rcases h with ⟨front, back, hentries, hvalue⟩
                refine ⟨front, back ++ one.entries (depth + 1), by rw [hentries]; simp, ?_⟩
                simpa using hvalue
              · intro h
                rcases h with ⟨front, back, hentries, hvalue⟩
                rcases append_eq_append_cons_iff.mp hentries with
                  ⟨between, hzero, hback⟩ | ⟨between, hfront, hone⟩
                · exact ⟨front, between, hzero, by simpa using hvalue⟩
                · exfalso
                  have hspace := hspaceZero (by rw [hone]; simp)
                  have hle := hdeepOne (depth + 1 + rest.length, symbol) (by rw [hone]; simp)
                  have hsmall := Bits.toNat_lt rest.reverse
                  rw [List.length_reverse] at hsmall
                  have hlt := Nat.mul_lt_mul_of_pos_right hsmall
                    (Nat.two_pow_pos (maxLength - (depth + 1 + rest.length)))
                  rw [hunits hle] at hlt
                  rw [hfront, entrySpace_append, hspace] at hvalue
                  simp at hvalue
                  omega
          | true =>
              have hread : (fork zero one).reader.Reads (true :: rest) symbol ↔
                  one.reader.Reads rest symbol := BitReader.reads_bit_cons
              rw [hread, ihOne hpackedOne hdeepOne]
              constructor
              · intro h
                rcases h with ⟨front, back, hentries, hvalue⟩
                have hspace := hspaceZero (by rw [hentries]; simp)
                have hle := hdeepOne (depth + 1 + rest.length, symbol) (by rw [hentries]; simp)
                refine ⟨zero.entries (depth + 1) ++ front, back, by rw [hentries]; simp, ?_⟩
                rw [entrySpace_append, hspace, ← hvalue, Nat.add_mul, Bool.toNat_true, Nat.mul_one,
                  hunits hle, Nat.add_comm]
              · intro h
                rcases h with ⟨front, back, hentries, hvalue⟩
                have hle := hdeep (depth + 1 + rest.length, symbol) (by rw [hentries]; simp)
                rw [Nat.add_mul, Bool.toNat_true, Nat.mul_one, hunits hle] at hvalue
                rcases append_eq_append_cons_iff.mp hentries with
                  ⟨between, hzero, hback⟩ | ⟨between, hfront, hone⟩
                · exfalso
                  have hspace := entrySpace_entries_le hdeepZero
                  have hpos := Nat.two_pow_pos (maxLength - (depth + 1 + rest.length))
                  simp only [hzero, entrySpace_append, entrySpace_cons] at hspace
                  omega
                · have hspace := hspaceZero (by rw [hone]; simp)
                  rw [hfront, entrySpace_append, hspace] at hvalue
                  exact ⟨between, back, hone, by omega⟩

end CodeTree

end BoundedZlib
