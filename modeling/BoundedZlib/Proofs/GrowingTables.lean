import BoundedZlib.Proofs.Interning

/-!
# Growing any table

A table that comes from elsewhere may hold any bytes, and its last name may lack the zero
byte.  Names that are ended stay where they are when the table grows, and so does the last
one if nothing or an empty name is appended to it.  What was given an offset is found there,
and interning finds the first entry of it again.
-/

namespace BoundedZlib

namespace Resource
namespace NameTable

/-!
## Appending to bytes
-/

section Appending

variable {table : NameTable} {offset : UInt32} {name : String} {place found : Nat}
  {entry latest bytes : Bytes}

/-- No entry of the table goes on at its end. -/
def IsTerminated (table : NameTable) : Prop :=
  table.bytes = [] ∨ table.bytes.getLast? = some 0

/-- What is appended to whole entries is looked through only if none of them was found. -/
theorem search_append (hend : bytes = [] ∧ latest = [] ∨ bytes.getLast? = some 0) (more : Bytes) :
    search entry place latest (bytes ++ more) =
      (search entry place latest bytes).or
        (search entry (place + (latest.length + bytes.length)) [] more) := by
  induction bytes generalizing place latest with
  | nil =>
      rcases hend with ⟨_, hlatest⟩ | hlast
      · rw [hlatest, search, if_neg (fun h => h.right rfl)]
        rfl
      · cases hlast
  | cons byte rest ih =>
      have hrest : rest = [] ∧ byte = 0 ∨ rest.getLast? = some 0 := by
        rcases hend with ⟨hnil, _⟩ | hlast
        · cases hnil
        · cases rest with
          | nil => exact Or.inl ⟨rfl, Option.some.inj hlast⟩
          | cons next others =>
              rw [List.getLast?_cons_cons] at hlast
              exact Or.inr hlast
      rw [List.cons_append, search, search, List.length_cons]
      by_cases hbyte : byte = 0
      · rw [if_pos hbyte, if_pos hbyte]
        split
        · rfl
        · rw [ih (hrest.imp (fun h => ⟨h.left, rfl⟩) id), List.length_nil, Nat.zero_add,
            Nat.add_assoc place, Nat.add_assoc place, Nat.add_right_comm latest.length,
            ← Nat.add_assoc latest.length]
      · rw [if_neg hbyte, if_neg hbyte, ih (Or.inr (hrest.resolve_left fun h => hbyte h.right)),
          List.length_cons, Nat.add_right_comm latest.length, ← Nat.add_assoc latest.length]

theorem search_sound (hfree : 0 ∉ latest)
    (hsearch : search entry place latest bytes = some found) :
    ∃ front back, latest.reverse ++ bytes = front ++ (entry ++ back) ∧
      place + front.length = found ∧ 0 ∉ entry ∧ entry ++ back ≠ [] ∧
      ∀ byte ∈ back.head?, byte = 0 := by
  have hreverse : 0 ∉ latest.reverse := fun hmem => hfree (List.mem_reverse.mp hmem)
  induction bytes generalizing place latest with
  | nil =>
      rw [search] at hsearch
      split at hsearch
      · rename_i hfound
        rcases hfound with ⟨hentry, hsome⟩
        rw [hentry] at hreverse
        refine ⟨[], [], by rw [hentry]; simp, Option.some.inj hsearch, hreverse, ?_,
          fun _ hmem => by cases hmem⟩
        rw [List.append_nil, ← hentry, List.reverse_ne_nil_iff]
        exact hsome
      · cases hsearch
  | cons byte rest ih =>
      rw [search] at hsearch
      split at hsearch
      · rename_i hzero
        rw [hzero]
        split at hsearch
        · rename_i hentry
          rw [hentry] at hreverse
          refine ⟨[], 0 :: rest, by rw [hentry]; rfl, Option.some.inj hsearch, hreverse,
            List.append_ne_nil_of_right_ne_nil _ (List.cons_ne_nil _ _), ?_⟩
          intro other hmem
          exact (Option.some.inj hmem).symm
        · rcases ih List.not_mem_nil hsearch List.not_mem_nil with
            ⟨front, back, hsplit, hplace, hends⟩
          refine ⟨latest.reverse ++ 0 :: front, back, ?_, ?_, hends⟩
          · rw [List.reverse_nil, List.nil_append] at hsplit
            rw [hsplit, List.append_assoc, List.cons_append]
          · rw [← hplace, List.length_append, List.length_reverse, List.length_cons]
            omega
      · rename_i hbyte
        have hnext : 0 ∉ byte :: latest := by
          rw [List.mem_cons, not_or]
          exact ⟨Ne.symm hbyte, hfree⟩
        rcases ih hnext hsearch (fun hmem => hnext (List.mem_reverse.mp hmem)) with
          ⟨front, back, hsplit, hends⟩
        refine ⟨front, back, ?_, hends⟩
        rw [← hsplit, List.reverse_cons, List.append_assoc]
        rfl

theorem holds_of_find? (hfind : table.find? name = some offset.toNat) :
    table.Holds offset name := by
  rcases search_sound List.not_mem_nil hfind with ⟨front, back, hbytes, hplace, hends⟩
  rw [Nat.zero_add] at hplace
  exact ⟨front, back, hbytes, hplace, hends⟩

/-!
## Names in a table that grows
-/

theorem Holds.append (hholds : table.Holds offset name) {more : Bytes}
    (hend : 0 ∈ table.bytes.drop offset.toNat ∨ more.head? = some 0) :
    Holds ⟨table.bytes ++ more⟩ offset name := by
  rcases hholds with ⟨front, back, hbytes, hfront, hfree, hsome, hback⟩
  refine ⟨front, back ++ more, ?_, hfront, hfree, ?_, ?_⟩
  · rw [hbytes, List.append_assoc, List.append_assoc]
  · rw [← List.append_assoc]
    exact List.append_ne_nil_of_left_ne_nil hsome _
  · cases back with
    | cons byte rest => exact hback
    | nil =>
        rcases hend with hzero | hmore
        · rw [hbytes, ← hfront, List.drop_left, List.append_nil] at hzero
          exact absurd hzero hfree
        · intro byte hmem
          rw [List.nil_append, hmore] at hmem
          exact (Option.some.inj hmem).symm

theorem holds_appended (hplace : offset.toNat = table.bytes.length) (hfree : 0 ∉ nameBytes name) :
    Holds ⟨table.bytes ++ nameBytes name ++ [0]⟩ offset name := by
  refine ⟨table.bytes, [0], List.append_assoc _ _ _, hplace.symm, hfree,
    List.append_ne_nil_of_right_ne_nil _ (List.cons_ne_nil _ _), ?_⟩
  intro byte hmem
  exact (Option.some.inj hmem).symm

theorem find?_appended (hterminated : table.IsTerminated) (hfree : 0 ∉ nameBytes name) :
    find? ⟨table.bytes ++ nameBytes name ++ [0]⟩ name =
      (table.find? name).or (some table.bytes.length) := by
  have hend : table.bytes = [] ∧ ([] : Bytes) = [] ∨ table.bytes.getLast? = some 0 := by
    rcases hterminated with hnil | hlast
    · exact Or.inl ⟨hnil, rfl⟩
    · exact Or.inr hlast
  rw [find?, List.append_assoc, search_append hend, search_entry hfree, List.reverse_nil,
    List.nil_append, if_pos rfl, List.length_nil, Nat.zero_add, Nat.zero_add, find?]

end Appending

/-!
## Calls on any table
-/

section Calls

variable {table after : NameTable} {call : Call} {place : UInt32} {name : String}

theorem offset_toNat (place : UInt32) : offset place.toNat = .ok place := by
  have hroom : place.toNat ≤ maxOffset := Nat.le_of_lt_succ place.toNat_lt
  rw [offset, if_pos hroom, UInt32.ofNat_toNat]

theorem interning_of_find? (hfind : table.find? name = some place.toNat) :
    (interning name).run table = .ok place table := by
  rw [interning_run, hfind]
  dsimp only
  rw [ofExcept_run, offset_toNat]

theorem appended_ne (table : NameTable) (more : Bytes) :
    NameTable.mk (table.bytes ++ more ++ [0]) ≠ table := by
  intro hsame
  have hlength := congrArg (fun table => table.bytes.length) hsame
  rw [List.length_append, List.length_append, List.length_singleton] at hlength
  omega

theorem perform_keeps (hperform : call.perform.run table = .ok place after) {offset : UInt32}
    (hholds : table.Holds offset name)
    (hend : 0 ∈ table.bytes.drop offset.toNat ∨ call.name = "" ∨ after = table) :
    after.Holds offset name := by
  rcases perform_eq_ok hperform with ⟨_, hafter, _⟩ | ⟨_, hafter⟩
  · rw [hafter, List.append_assoc]
    apply hholds.append
    rcases hend with hzero | hempty | hsame
    · exact Or.inl hzero
    · rw [hempty]
      exact Or.inr rfl
    · exact absurd (hafter.symm.trans hsame) (appended_ne table _)
  · rw [hafter]
    exact hholds

theorem perform_holds (hperform : call.perform.run table = .ok place after)
    (hfree : 0 ∉ nameBytes call.name) : after.Holds place call.name := by
  rcases perform_eq_ok hperform with ⟨hplace, hafter, _⟩ | ⟨hfind, hafter⟩
  · rw [hafter]
    exact holds_appended hplace hfree
  · rw [hafter]
    exact holds_of_find? hfind

theorem interning_after_perform (hperform : call.perform.run table = .ok place after)
    (hfree : 0 ∉ nameBytes call.name) (hterminated : table.IsTerminated ∨ after = table) :
    match table.find? call.name with
    | none => (interning call.name).run after = .ok place after
    | some number => ∃ first : UInt32, first.toNat = number ∧
        (interning call.name).run table = .ok first table ∧
        (interning call.name).run after = .ok first after := by
  rcases perform_eq_ok hperform with ⟨hplace, hafter, _⟩ | ⟨hfind, hafter⟩
  · have hends : table.IsTerminated := by
      rcases hterminated with hends | hsame
      · exact hends
      · exact absurd (hafter.symm.trans hsame) (appended_ne table _)
    have hagain := find?_appended hends hfree
    rw [← hafter, ← hplace] at hagain
    cases hfind : table.find? call.name with
    | none =>
        rw [hfind, Option.none_or] at hagain
        exact interning_of_find? hagain
    | some number =>
        -- The entry that was there before comes first, at an offset since the end is one.
        have hle : number ≤ place.toNat := hplace ▸ find?_le hfind
        have hnumber : (UInt32.ofNat number).toNat = number :=
          UInt32.toNat_ofNat_of_lt' (Nat.lt_of_le_of_lt hle place.toNat_lt)
        rw [hfind, Option.some_or, ← hnumber] at hagain
        rw [← hnumber] at hfind
        exact ⟨_, hnumber, interning_of_find? hfind, interning_of_find? hagain⟩
  · rw [hafter, hfind]
    exact ⟨place, rfl, interning_of_find? hfind, interning_of_find? hfind⟩

/--
Whatever bytes a table holds, a call that gives an offset leaves every name that a zero byte
ends at its offset, and every name at all if it appends nothing or the empty name.  The
offset gives the name of the call, if the character zero is not in it.  If the table had no
open end, interning that name once more changes nothing and gives the same offset, or the
one that interning gave before, if the table held the name.
-/
theorem growing_keeps_names (hperform : call.perform.run table = .ok place after) :
    (∀ offset name, table.get offset = .ok name →
      0 ∈ table.bytes.drop offset.toNat ∨ call.name = "" ∨ after = table →
      after.get offset = .ok name) ∧
    ('\x00' ∉ call.name.toList →
      after.get place = .ok call.name ∧
      (table.IsTerminated ∨ after = table →
        match table.find? call.name with
        | none => (interning call.name).run after = .ok place after
        | some number => ∃ first : UInt32, first.toNat = number ∧
            (interning call.name).run table = .ok first table ∧
            (interning call.name).run after = .ok first after)) := by
  constructor
  · intro offset name hget hend
    exact get_eq_ok_iff.mpr (perform_keeps hperform (get_eq_ok_iff.mp hget) hend)
  · intro hcharacters
    have hfree := zero_notMem_nameBytes hcharacters
    exact ⟨get_eq_ok_iff.mpr (perform_holds hperform hfree),
      interning_after_perform hperform hfree⟩

end Calls

/-- A name that is added again goes to another offset, and interning gives the first one. -/
theorem growing_addedAgain :
    ∃ after, (adding "zip").run ⟨[0xff, 0, 0x7a, 0x69, 0x70, 0]⟩ = .ok 6 after ∧
      after.get 3 = .ok "ip" ∧ after.get 6 = .ok "zip" ∧
      (interning "zip").run after = .ok 2 after := by
  have hrun : ∃ after, (Call.add "zip").perform.run ⟨[0xff, 0, 0x7a, 0x69, 0x70, 0]⟩ =
      .ok 6 after := ⟨_, rfl⟩
  rcases hrun with ⟨after, hrun⟩
  rcases growing_keeps_names hrun with ⟨hkept, hgiven⟩
  rcases hgiven (by decide) with ⟨hget, hagain⟩
  rcases hagain (Or.inl (Or.inr rfl)) with ⟨first, hfirst, _, hafter⟩
  have htwo : first = 2 := UInt32.toNat_inj.mp hfirst
  rw [htwo] at hafter
  exact ⟨after, hrun, hkept 3 "ip" rfl (Or.inl (by decide)), hget, hafter⟩

/--
Growing promises no more than that.  A name that is added again does not stand first, the
character zero ends a name before its end, and what is appended to a name without zero byte
becomes part of it.
-/
theorem not_every_growth_keeps_names :
    (¬ ∀ (table after : NameTable) (call : Call) (place : UInt32),
      call.perform.run table = .ok place after →
      (interning call.name).run after = .ok place after) ∧
    (¬ ∀ (table after : NameTable) (call : Call) (place : UInt32),
      call.perform.run table = .ok place after → after.get place = .ok call.name) ∧
    ¬ ∀ (table after : NameTable) (call : Call) (place : UInt32),
      call.perform.run table = .ok place after →
      ∀ offset name, table.get offset = .ok name → after.get offset = .ok name := by
  refine ⟨?_, ?_, ?_⟩
  · intro hall
    have hagain := hall ⟨[0x7a, 0x69, 0x70, 0]⟩ _ (.add "zip") 4 rfl
    have hfirst : (interning "zip").run ⟨[0x7a, 0x69, 0x70, 0, 0x7a, 0x69, 0x70, 0]⟩ =
      .ok 0 ⟨[0x7a, 0x69, 0x70, 0, 0x7a, 0x69, 0x70, 0]⟩ := rfl
    have hplaces := hfirst.symm.trans hagain
    rw [EStateM.Result.ok.injEq] at hplaces
    exact absurd hplaces.left (by decide)
  · intro hall
    have hget := hall ⟨[]⟩ _ (.add "a\x00b") 0 rfl
    have hshort : get ⟨[0x61, 0, 0x62, 0]⟩ 0 = .ok "a" := rfl
    exact absurd (Except.ok.inj (hshort.symm.trans hget)) (by decide)
  · intro hall
    have hget := hall ⟨[0x7a, 0x69, 0x70]⟩ _ (.intern "x") 3 rfl 0 "zip" rfl
    have hlonger : get ⟨[0x7a, 0x69, 0x70, 0x78, 0]⟩ 0 = .ok "zipx" := rfl
    exact absurd (Except.ok.inj (hlonger.symm.trans hget)) (by decide)

end NameTable
end Resource
end BoundedZlib
