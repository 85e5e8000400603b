import BoundedZlib.Resource.NameTable
import Mathlib.Data.List.TakeWhile

/-!
# Names in tables

A table holds a name at an offset if its bytes stand there, followed by a zero byte
or by the end of the table.  Looking up an offset finds exactly the name held there.
-/

namespace BoundedZlib

namespace Resource

/-!
## Names as bytes
-/

theorem nameOfBytes?_eq_some_iff {bytes : Bytes} {name : String} :
    nameOfBytes? bytes = some name ↔ nameBytes name = bytes := by
  unfold nameOfBytes? String.fromUTF8?
  constructor
  · intro hname
    split at hname
    · rw [Option.some.injEq] at hname
      rw [← hname]
      rfl
    · cases hname
  · intro hbytes
    have hspelled : (⟨bytes.toArray⟩ : ByteArray) = name.toByteArray := by
      rw [← hbytes]
      rfl
    rw [hspelled, dif_pos name.isValidUTF8]
    rfl

namespace NameTable

/-!
## Looking up
-/

section Lookup

variable {table : NameTable} {offset : UInt32} {name : String} {error : Error}

/--
The bytes of the name, none of which is zero, stand at the offset, and after them
comes a zero byte or the end of the table.  There is something at the offset.
-/
def Holds (table : NameTable) (offset : UInt32) (name : String) : Prop :=
  ∃ front back, table.bytes = front ++ (nameBytes name ++ back) ∧
    front.length = offset.toNat ∧ 0 ∉ nameBytes name ∧ nameBytes name ++ back ≠ [] ∧
    ∀ byte ∈ back.head?, byte = 0

theorem Holds.drop_eq (hholds : table.Holds offset name) :
    table.bytes.drop offset.toNat ≠ [] ∧
      (table.bytes.drop offset.toNat).takeWhile (· != 0) = nameBytes name := by
  rcases hholds with ⟨front, back, hbytes, hfront, hnonzero, hsome, hend⟩
  rw [hbytes, ← hfront, List.drop_left]
  refine ⟨hsome, ?_⟩
  have hname : ∀ byte ∈ nameBytes name, (byte != 0) = true := by
    intro byte hmem
    rw [bne_iff_ne]
    intro hzero
    exact hnonzero (hzero ▸ hmem)
  rw [List.takeWhile_append_of_pos hname]
  cases back with
  | nil => rw [List.takeWhile_nil, List.append_nil]
  | cons byte rest =>
      rw [hend byte rfl, List.takeWhile_cons_of_neg (by decide), List.append_nil]

theorem get_eq_ok_iff : table.get offset = .ok name ↔ table.Holds offset name := by
  constructor
  · intro hget
    simp only [get, List.isEmpty_iff] at hget
    split at hget
    · cases hget
    · rename_i hsome
      split at hget
      · cases hget
      · rename_i found hfound
        rw [Except.ok.injEq] at hget
        rw [hget, nameOfBytes?_eq_some_iff] at hfound
        generalize htail : table.bytes.drop offset.toNat = tail at hsome hfound
        have hsplit : nameBytes name ++ tail.dropWhile (· != 0) = tail := by
          rw [hfound, List.takeWhile_append_dropWhile]
        refine ⟨table.bytes.take offset.toNat, tail.dropWhile (· != 0), ?_, ?_, ?_, ?_, ?_⟩
        · rw [hsplit, ← htail, List.take_append_drop]
        · rw [List.length_take, Nat.min_eq_left]
          by_contra hbeyond
          exact hsome (htail ▸ List.drop_of_length_le (Nat.le_of_not_le hbeyond))
        · intro hzero
          rw [hfound] at hzero
          have hnonzero := List.mem_takeWhile_imp hzero
          exact absurd hnonzero (by decide)
        · rw [hsplit]
          exact hsome
        · intro byte hmem
          have hhead := List.head?_dropWhile_not (· != 0) tail
          rw [Option.mem_def.mp hmem] at hhead
          exact bne_eq_false_iff_eq.mp hhead
  · intro hholds
    rcases hholds.drop_eq with ⟨hsome, hname⟩
    simp only [get, List.isEmpty_iff, if_neg hsome, hname, nameOfBytes?_eq_some_iff.mpr rfl]

theorem error_of_get (hget : table.get offset = .error error) :
    error = .nameNotFound offset.toNat := by
  simp only [get] at hget
  split at hget
  · rw [Except.error.injEq] at hget
    exact hget.symm
  · split at hget
    · rw [Except.error.injEq] at hget
      exact hget.symm
    · cases hget

theorem get_eq_error_iff :
    table.get offset = .error error ↔
      (∀ name, ¬ table.Holds offset name) ∧ error = .nameNotFound offset.toNat := by
  constructor
  · intro hget
    refine ⟨?_, error_of_get hget⟩
    intro name hholds
    rw [get_eq_ok_iff.mpr hholds] at hget
    cases hget
  · intro h
    rcases h with ⟨hnone, herror⟩
    cases hget : table.get offset with
    | ok name => exact absurd (get_eq_ok_iff.mp hget) (hnone name)
    | error other => rw [herror, error_of_get hget]

end Lookup

end NameTable
end Resource
end BoundedZlib
