import BoundedZlib.Proofs.Layers

/-!
# Sizes beyond any buffer

A new buffer is allocated before its length is compared with what the engine can count.
A size that no buffer can have therefore ends the program, where a smaller one that is
too large is an error.  Of the layers of a resource, it is those that tell such a size for
their content that end it.  What exhausts the memory of a machine below that size is left out.
-/

namespace BoundedZlib

theorem Failure.allocate_eq_error_iff {size : Nat} {failure : Failure} :
    Failure.allocate size = .error failure ↔ maxCapacity < size ∧ failure = .capacityOverflow := by
  unfold allocate
  split
  · rename_i hsize
    constructor
    · intro h
      cases h
    · intro h
      exact absurd hsize (Nat.not_le.mpr h.left)
  · rename_i hsize
    rw [Except.error.injEq]
    constructor
    · intro h
      exact ⟨Nat.not_le.mp hsize, h.symm⟩
    · intro h
      exact h.right.symm

theorem inflateToSize_eq_capacityOverflow_iff {input : Bytes} {size : Nat} :
    inflateToSize input size = .error .capacityOverflow ↔ Failure.maxCapacity < size := by
  unfold inflateToSize
  cases hallocate : Failure.allocate size with
  | error failure =>
      rcases Failure.allocate_eq_error_iff.mp hallocate with ⟨hsize, hfailure⟩
      rw [hfailure]
      exact iff_of_true rfl hsize
  | ok value =>
      apply iff_of_false
      · exact Failure.lift_ne_capacityOverflow _
      · intro hsize
        rw [Failure.allocate_eq_error_iff.mpr ⟨hsize, rfl⟩] at hallocate
        cases hallocate

namespace Resource

section Oversize

variable {names : NameTable} {order : ByteOrder} {data : Bytes}

/--
The data starts like a layer of the built-in decompressor, all of its payload is there,
and it tells more content than a buffer can have.
-/
inductive Oversize (names : NameTable) (order : ByteOrder) (data : Bytes) : Prop where
  | intro {header : Header} {payload : Bytes} (hopens : header.Opens order data)
      (hholds : names.Holds header.nameOffset Decompressor.zipName)
      (hcarries : header.Carries order data payload)
      (hsize : Failure.maxCapacity < header.contentSize.toNat)

/-- Of all that breaks a layer only its decompressor allocates. -/
theorem breaks_capacityOverflow_iff :
    Breaks [.zip] names order data .capacityOverflow ↔ Oversize names order data := by
  constructor
  · intro h
    cases h with
    | decompressor hopens hdesignates hcarries hrun =>
        rcases designates_zip_iff.mp hdesignates with ⟨hholds, hzip⟩
        subst hzip
        exact .intro hopens hholds hcarries (inflateToSize_eq_capacityOverflow_iff.mp hrun)
  · intro h
    rcases h with ⟨hopens, hholds, hcarries, hsize⟩
    exact .decompressor hopens (designates_zip_iff.mpr ⟨hholds, rfl⟩) hcarries
      (inflateToSize_eq_capacityOverflow_iff.mpr hsize)

/--
Inflating to a size overflows the capacity of buffers, and so ends the program, exactly if no
buffer can have that size.  Unpacking with the built-in decompressor does so exactly if a chain
of layers leads to one that tells such a size.  Smaller sizes may still exhaust the memory of a
machine, of which nothing is said here.
-/
theorem ends_program_iff_oversize (names : NameTable) (order : ByteOrder) :
    (∀ input size, inflateToSize input size = .error .capacityOverflow ↔
      Failure.maxCapacity < size) ∧
    ∀ expected limit data,
      Image.unpack? ⟨.builtin, names, order⟩ expected limit data =
          some (.error .capacityOverflow) ↔
        ∃ layers last, layers < limit ∧ Chain [.zip] names order layers data last ∧
          Oversize names order last := by
  refine ⟨fun _ _ => inflateToSize_eq_capacityOverflow_iff, ?_⟩
  intro expected limit data
  have hbuiltin : Registry.builtin = .registerAll [.zip] := rfl
  rw [hbuiltin, unpack?_eq_some_iff]
  constructor
  · intro h
    rcases h with ⟨layers, last, hlimit, hchain, hends⟩
    cases hends with
    | broken hbreaks =>
        exact ⟨layers, last, hlimit, hchain, breaks_capacityOverflow_iff.mp hbreaks⟩
  · intro h
    rcases h with ⟨layers, last, hlimit, hchain, hoversize⟩
    exact ⟨layers, last, hlimit, hchain, .broken (breaks_capacityOverflow_iff.mpr hoversize)⟩

def oversizeLayer : Bytes :=
  Header.write (.ofSizes 1 9223372036854775808 0) .big ++ [0x00]

/-- One byte ends the program, by itself with that size and as the payload of a layer. -/
theorem one_byte_ends_program :
    inflateToSize [0x00] 9223372036854775808 = .error .capacityOverflow ∧
      Image.unpack? ⟨.builtin, ⟨[0x7a, 0x69, 0x70, 0x00]⟩, .big⟩ 0 1 oversizeLayer =
        some (.error .capacityOverflow) := by
  decide +kernel

end Oversize

end Resource
end BoundedZlib
