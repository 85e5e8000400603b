import BoundedZlib.Proofs.NameTables
import BoundedZlib.Proofs.ResourceHeaders
import BoundedZlib.Resource.Layers
import Mathlib.Data.List.Induction

/-!
# Layers of resources

A layer is data that starts with a header, whose name is that of a registered
decompressor, and the payload of which this decompressor maps to content of the
size that the header tells.  Unpacking follows the chain of layers to its end: to
data without a header, or to the first data whose layer is broken.
-/

namespace BoundedZlib

namespace Resource

/-!
## Registering decompressors
-/

namespace Registry

def registerAll (calls : List Decompressor) : Registry :=
  calls.foldl register {}

theorem decompressors_registerAll (calls : List Decompressor) :
    (registerAll calls).decompressors = calls.reverse := by
  induction calls using List.reverseRecOn with
  | nil => rfl
  | append_singleton calls call ih =>
      rw [registerAll, List.foldl_append, ← registerAll, List.reverse_append, ← ih]
      rfl

/-- Of the decompressors registered under this name, this one was registered last. -/
def IsLatest (calls : List Decompressor) (name : String) (decompressor : Decompressor) : Prop :=
  ∃ older newer, calls = older ++ decompressor :: newer ∧ decompressor.name = name ∧
    ∀ other ∈ newer, other.name ≠ name

section Lookup

variable {calls : List Decompressor} {name : String} {decompressor : Decompressor}

theorem get?_registerAll_eq_some_iff :
    (registerAll calls).get? name = some decompressor ↔ IsLatest calls name decompressor := by
  rw [get?, decompressors_registerAll, List.find?_eq_some_iff_append, beq_iff_eq]
  constructor
  · intro h
    rcases h with ⟨hname, newer, older, hcalls, hnewer⟩
    refine ⟨older.reverse, newer.reverse, ?_, hname, ?_⟩
    · rw [← List.reverse_reverse calls, hcalls, List.reverse_append, List.reverse_cons,
        List.append_assoc]
      rfl
    · intro other hmem
      have hother := hnewer other (List.mem_reverse.mp hmem)
      rw [Bool.not_eq_true', beq_eq_false_iff_ne] at hother
      exact hother
  · intro h
    rcases h with ⟨older, newer, hcalls, hname, hnewer⟩
    refine ⟨hname, newer.reverse, older.reverse, ?_, ?_⟩
    · rw [hcalls, List.reverse_append, List.reverse_cons, List.append_assoc]
      rfl
    · intro other hmem
      rw [Bool.not_eq_true', beq_eq_false_iff_ne]
      exact hnewer other (List.mem_reverse.mp hmem)

theorem get?_registerAll_eq_none_iff :
    (registerAll calls).get? name = none ↔ ∀ other ∈ calls, other.name ≠ name := by
  rw [get?, decompressors_registerAll, List.find?_eq_none]
  constructor
  · intro h other hmem
    have hother := h other (List.mem_reverse.mpr hmem)
    rw [beq_iff_eq] at hother
    exact hother
  · intro h other hmem
    rw [beq_iff_eq]
    exact h other (List.mem_reverse.mp hmem)

end Lookup

end Registry

/-!
## Payloads
-/

/-- The header is followed by a payload of as many bytes as it tells. -/
structure Header.Carries (header : Header) (order : ByteOrder) (data payload : Bytes) : Prop where
  written : header.write order ++ payload <+: data
  length_eq : payload.length = header.size.toNat

section Payload

variable {header : Header} {order : ByteOrder} {data payload : Bytes}

theorem Header.Carries.payload_eq (hcarries : header.Carries order data payload) :
    Image.payload header data = .ok payload := by
  rcases hcarries with ⟨⟨rest, hdata⟩, hlength⟩
  have hsize := congrArg List.length hdata
  rw [List.length_append, List.length_append, Header.length_write, hlength] at hsize
  have hdrop : data.drop Header.length = payload ++ rest := by
    rw [← hdata, List.append_assoc, ← Header.length_write header order, List.drop_left]
  rw [Image.payload, if_pos (by omega), hdrop, ← hlength, List.take_left]

theorem Header.exists_carries (hopens : header.Opens order data)
    (hfits : Header.length + header.size.toNat ≤ data.length) :
    ∃ payload, header.Carries order data payload := by
  rcases hopens.written with ⟨rest, hdata⟩
  have hlength := congrArg List.length hdata
  rw [List.length_append, Header.length_write] at hlength
  refine ⟨rest.take header.size.toNat, ?_, ?_⟩
  · rw [← hdata, List.prefix_append_right_inj]
    exact List.take_prefix _ _
  · rw [List.length_take]
    omega

end Payload

/-!
## Layers
-/

section Layers

/-- The name held at the offset is that of a registered decompressor, the latest of that name. -/
def Designates (calls : List Decompressor) (names : NameTable) (offset : UInt32)
    (decompressor : Decompressor) : Prop :=
  ∃ name, names.Holds offset name ∧ Registry.IsLatest calls name decompressor

/-- The data is a layer around the content. -/
inductive Layer (calls : List Decompressor) (names : NameTable) (order : ByteOrder)
    (data content : Bytes) : Prop where
  | intro {header : Header} {decompressor : Decompressor} {payload : Bytes}
      (hopens : header.Opens order data)
      (hdesignates : Designates calls names header.nameOffset decompressor)
      (hcarries : header.Carries order data payload)
      (hrun : decompressor.run payload header = .ok content)
      (hsize : content.length = header.contentSize.toNat)

/--
The data starts like a layer but is none.  What breaks it is the first of the things
that a layer needs which is missing, so each case has all that come before it.
-/
inductive Breaks (calls : List Decompressor) (names : NameTable) (order : ByteOrder)
    (data : Bytes) : Failure → Prop where
  | header (hmarked : Header.IsMarked order data)
      (hshort : data.length < Header.length) :
      Breaks calls names order data
        (.error (.invalidHeader s!"truncated: {data.length} of {Header.length} bytes"))
  | name {header : Header} (hopens : header.Opens order data)
      (hnone : ∀ name, ¬ names.Holds header.nameOffset name) :
      Breaks calls names order data (.error (.nameNotFound header.nameOffset.toNat))
  | registry {header : Header} {name : String} (hopens : header.Opens order data)
      (hholds : names.Holds header.nameOffset name)
      (hunknown : ∀ other ∈ calls, other.name ≠ name) :
      Breaks calls names order data (.error (.unknownDecompressor name))
  | payload {header : Header} {decompressor : Decompressor} (hopens : header.Opens order data)
      (hdesignates : Designates calls names header.nameOffset decompressor)
      (hoverrun : data.length < Header.length + header.size.toNat) :
      Breaks calls names order data (.error (.invalidHeader
        s!"payload of {header.size.toNat} bytes overruns {data.length}-byte resource"))
  | decompressor {header : Header} {decompressor : Decompressor} {payload : Bytes}
      {failure : Failure} (hopens : header.Opens order data)
      (hdesignates : Designates calls names header.nameOffset decompressor)
      (hcarries : header.Carries order data payload)
      (hrun : decompressor.run payload header = .error failure) :
      Breaks calls names order data failure
  | size {header : Header} {decompressor : Decompressor} {payload content : Bytes}
      (hopens : header.Opens order data)
      (hdesignates : Designates calls names header.nameOffset decompressor)
      (hcarries : header.Carries order data payload)
      (hrun : decompressor.run payload header = .ok content)
      (hsize : content.length ≠ header.contentSize.toNat) :
      Breaks calls names order data
        (.error (.sizeMismatch header.contentSize.toNat content.length))

/-- So many layers are around the last data. -/
inductive Chain (calls : List Decompressor) (names : NameTable) (order : ByteOrder) :
    (layers : Nat) → (data last : Bytes) → Prop where
  | nil (data : Bytes) : Chain calls names order 0 data data
  | cons {layers : Nat} {data content last : Bytes}
      (hlayer : Layer calls names order data content)
      (hrest : Chain calls names order layers content last) :
      Chain calls names order (layers + 1) data last

variable {calls : List Decompressor} {names : NameTable} {order : ByteOrder}
variable {data content : Bytes} {failure : Failure}

theorem designates_zip_iff {offset : UInt32} {decompressor : Decompressor} :
    Designates [.zip] names offset decompressor ↔
      names.Holds offset Decompressor.zipName ∧ decompressor = .zip := by
  constructor
  · intro h
    rcases h with ⟨name, hholds, older, newer, hcalls, hname, _⟩
    have hmem : decompressor ∈ [Decompressor.zip] := by
      rw [hcalls]
      exact List.mem_append_right _ List.mem_cons_self
    have hzip := List.mem_singleton.mp hmem
    subst hzip hname
    exact ⟨hholds, rfl⟩
  · intro h
    rcases h with ⟨hholds, hzip⟩
    subst hzip
    exact ⟨_, hholds, [], [], rfl, rfl, fun _ hmem => absurd hmem List.not_mem_nil⟩

theorem layer_cases (calls : List Decompressor) (names : NameTable) (order : ByteOrder)
    (data : Bytes) :
    ¬ Header.IsMarked order data ∨ (∃ content, Layer calls names order data content) ∨
      ∃ failure, Breaks calls names order data failure := by
  by_cases hmarked : Header.IsMarked order data
  · apply Or.inr
    by_cases hshort : data.length < Header.length
    · exact Or.inr ⟨_, .header hmarked hshort⟩
    · rcases Header.exists_opens hmarked (Nat.not_lt.mp hshort) with ⟨header, _, hopens⟩
      cases hname : names.get header.nameOffset with
      | error error => exact Or.inr ⟨_, .name hopens (NameTable.get_eq_error_iff.mp hname).left⟩
      | ok name =>
          have hholds := NameTable.get_eq_ok_iff.mp hname
          cases hlookup : (Registry.registerAll calls).get? name with
          | none =>
              have hunknown := Registry.get?_registerAll_eq_none_iff.mp hlookup
              exact Or.inr ⟨_, .registry hopens hholds hunknown⟩
          | some decompressor =>
              have hlatest := Registry.get?_registerAll_eq_some_iff.mp hlookup
              have hdesignates : Designates calls names header.nameOffset decompressor :=
                ⟨name, hholds, hlatest⟩
              by_cases hfits : Header.length + header.size.toNat ≤ data.length
              · rcases Header.exists_carries hopens hfits with ⟨payload, hcarries⟩
                cases hrun : decompressor.run payload header with
                | error failure =>
                    exact Or.inr ⟨_, .decompressor hopens hdesignates hcarries hrun⟩
                | ok content =>
                    by_cases hsize : content.length = header.contentSize.toNat
                    · exact Or.inl ⟨content, .intro hopens hdesignates hcarries hrun hsize⟩
                    · exact Or.inr ⟨_, .size hopens hdesignates hcarries hrun hsize⟩
              · exact Or.inr ⟨_, .payload hopens hdesignates (Nat.not_le.mp hfits)⟩
  · exact Or.inl hmarked

/-!
## Stripping one layer
-/

theorem Designates.decompressor_eq {header : Header} {decompressor : Decompressor}
    (hdesignates : Designates calls names header.nameOffset decompressor) :
    Image.decompressor ⟨.registerAll calls, names, order⟩ header = .ok decompressor := by
  rcases hdesignates with ⟨name, hholds, hlatest⟩
  simp only [Image.decompressor, NameTable.get_eq_ok_iff.mpr hholds,
    Registry.get?_registerAll_eq_some_iff.mpr hlatest, bind, Except.bind]

theorem strip?_of_not_isMarked (hmarked : ¬ Header.IsMarked order data) :
    Image.strip? ⟨.registerAll calls, names, order⟩ data = .ok none := by
  simp only [Image.strip?, Header.read_eq_none_iff.mpr hmarked, Failure.lift, bind, Except.bind,
    pure, Except.pure]

theorem Layer.strip?_eq (hlayer : Layer calls names order data content) :
    Image.strip? ⟨.registerAll calls, names, order⟩ data = .ok (some content) := by
  rcases hlayer with ⟨hopens, hdesignates, hcarries, hrun, hsize⟩
  simp only [Image.strip?, Header.read_eq_some_iff.mpr hopens, hdesignates.decompressor_eq,
    hcarries.payload_eq, hrun, Image.checkSize, if_pos hsize, Failure.lift, bind, Except.bind, pure,
    Except.pure]

theorem Breaks.strip?_eq (hbreaks : Breaks calls names order data failure) :
    Image.strip? ⟨.registerAll calls, names, order⟩ data = .error failure := by
  cases hbreaks with
  | header hmarked hshort =>
      have hread := Header.read_of_isMarked_of_lt hmarked hshort
      simp only [Image.strip?, hread, Failure.lift, bind, Except.bind]
  | name hopens hnone =>
      have hget := NameTable.get_eq_error_iff.mpr ⟨hnone, rfl⟩
      simp only [Image.strip?, Header.read_eq_some_iff.mpr hopens, Image.decompressor, hget,
        Failure.lift, bind, Except.bind]
  | registry hopens hholds hunknown =>
      have hget := NameTable.get_eq_ok_iff.mpr hholds
      have hlookup := Registry.get?_registerAll_eq_none_iff.mpr hunknown
      simp only [Image.strip?, Header.read_eq_some_iff.mpr hopens, Image.decompressor, hget,
        hlookup, Failure.lift, bind, Except.bind]
  | payload hopens hdesignates hoverrun =>
      simp only [Image.strip?, Header.read_eq_some_iff.mpr hopens,
        hdesignates.decompressor_eq, Image.payload, if_neg (Nat.not_le.mpr hoverrun),
        Failure.lift, bind, Except.bind]
  | decompressor hopens hdesignates hcarries hrun =>
      simp only [Image.strip?, Header.read_eq_some_iff.mpr hopens,
        hdesignates.decompressor_eq, hcarries.payload_eq, hrun, Failure.lift, bind,
        Except.bind]
  | size hopens hdesignates hcarries hrun hsize =>
      simp only [Image.strip?, Header.read_eq_some_iff.mpr hopens,
        hdesignates.decompressor_eq, hcarries.payload_eq, hrun, Image.checkSize,
        if_neg hsize, Failure.lift, bind, Except.bind]

/-!
## Unpacking
-/

/-- How unpacking ends at data that is not a layer. -/
inductive Ends (calls : List Decompressor) (names : NameTable) (order : ByteOrder) (expected : Nat)
    (last : Bytes) : Except Failure Bytes → Prop where
  | whole (hmarked : ¬ Header.IsMarked order last)
      (hsize : last.length = expected) :
      Ends calls names order expected last (.ok last)
  | size (hmarked : ¬ Header.IsMarked order last)
      (hsize : last.length ≠ expected) :
      Ends calls names order expected last (.error (.error (.sizeMismatch expected last.length)))
  | broken {failure : Failure} (hbreaks : Breaks calls names order last failure) :
      Ends calls names order expected last (.error failure)

variable {layers expected limit : Nat} {last : Bytes} {outcome : Except Failure Bytes}

theorem layer_or_ends (calls : List Decompressor) (names : NameTable) (order : ByteOrder)
    (expected : Nat) (data : Bytes) :
    (∃ content, Layer calls names order data content) ∨
      ∃ outcome, Ends calls names order expected data outcome := by
  rcases layer_cases calls names order data with hmarked | hlayer | ⟨failure, hbreaks⟩
  · by_cases hsize : data.length = expected
    · exact Or.inr ⟨_, .whole hmarked hsize⟩
    · exact Or.inr ⟨_, .size hmarked hsize⟩
  · exact Or.inl hlayer
  · exact Or.inr ⟨_, .broken hbreaks⟩

theorem Ends.unpack?_eq (hends : Ends calls names order expected data outcome) (limit : Nat) :
    Image.unpack? ⟨.registerAll calls, names, order⟩ expected (limit + 1) data = some outcome := by
  cases hends with
  | whole hmarked hsize =>
      simp only [Image.unpack?, strip?_of_not_isMarked hmarked, Image.checkSize, if_pos hsize,
        Except.map, Failure.lift]
  | size hmarked hsize =>
      simp only [Image.unpack?, strip?_of_not_isMarked hmarked, Image.checkSize, if_neg hsize,
        Except.map, Failure.lift]
  | broken hbreaks =>
      simp only [Image.unpack?, hbreaks.strip?_eq]

theorem Layer.unpack?_eq (hlayer : Layer calls names order data content) (expected limit : Nat) :
    Image.unpack? ⟨.registerAll calls, names, order⟩ expected (limit + 1) data =
      Image.unpack? ⟨.registerAll calls, names, order⟩ expected limit content := by
  rw [Image.unpack?, hlayer.strip?_eq]

theorem Chain.snoc (hchain : Chain calls names order layers data content)
    (hlayer : Layer calls names order content last) :
    Chain calls names order (layers + 1) data last := by
  induction hchain with
  | nil data => exact .cons hlayer (.nil last)
  | cons hfirst _ ih => exact .cons hfirst (ih hlayer)

/-- Each layer of a chain takes one off the limit. -/
theorem Chain.unpack?_eq (hchain : Chain calls names order layers data last)
    (expected limit : Nat) :
    Image.unpack? ⟨.registerAll calls, names, order⟩ expected (limit + layers) data =
      Image.unpack? ⟨.registerAll calls, names, order⟩ expected limit last := by
  induction hchain with
  | nil data => rfl
  | cons hlayer _ ih => rw [← Nat.add_assoc, hlayer.unpack?_eq, ih]

theorem Chain.unpack?_eq_some (hchain : Chain calls names order layers data last)
    (hends : Ends calls names order expected last outcome)
    (hlimit : layers < limit) :
    Image.unpack? ⟨.registerAll calls, names, order⟩ expected limit data = some outcome := by
  rcases Nat.exists_eq_add_of_lt hlimit with ⟨spare, hspare⟩
  have hmore : limit = spare + 1 + layers := by omega
  rw [hmore, hchain.unpack?_eq, hends.unpack?_eq]

theorem Chain.unpack?_eq_none (hchain : Chain calls names order layers data last)
    (expected : Nat) :
    Image.unpack? ⟨.registerAll calls, names, order⟩ expected layers data = none := by
  have hnone := hchain.unpack?_eq expected 0
  rw [Nat.zero_add] at hnone
  exact hnone

/-- A chain has as many layers as the limit allows for, or it ends before that. -/
theorem chain_or_ends (calls : List Decompressor) (names : NameTable) (order : ByteOrder)
    (expected limit : Nat) (data : Bytes) :
    (∃ last, Chain calls names order limit data last) ∨
      ∃ layers last outcome, layers < limit ∧ Chain calls names order layers data last ∧
        Ends calls names order expected last outcome := by
  induction limit generalizing data with
  | zero => exact Or.inl ⟨data, .nil data⟩
  | succ limit ih =>
      rcases layer_or_ends calls names order expected data with ⟨content, hlayer⟩ | ⟨outcome, hends⟩
      · rcases ih content with ⟨last, hchain⟩ | ⟨layers, last, outcome, hlimit, hchain, hends⟩
        · exact Or.inl ⟨last, .cons hlayer hchain⟩
        · exact Or.inr ⟨layers + 1, last, outcome, Nat.succ_lt_succ hlimit, .cons hlayer hchain,
            hends⟩
      · exact Or.inr ⟨0, data, outcome, Nat.succ_pos limit, .nil data, hends⟩

theorem unpack?_eq_some_iff :
    Image.unpack? ⟨.registerAll calls, names, order⟩ expected limit data = some outcome ↔
      ∃ layers last, layers < limit ∧ Chain calls names order layers data last ∧
        Ends calls names order expected last outcome := by
  constructor
  · intro hunpack
    rcases chain_or_ends calls names order expected limit data with
      ⟨last, hchain⟩ | ⟨layers, last, found, hlimit, hchain, hends⟩
    · rw [hchain.unpack?_eq_none] at hunpack
      cases hunpack
    · rw [hchain.unpack?_eq_some hends hlimit, Option.some.injEq] at hunpack
      exact ⟨layers, last, hlimit, hchain, hunpack ▸ hends⟩
  · intro h
    rcases h with ⟨layers, last, hlimit, hchain, hends⟩
    exact hchain.unpack?_eq_some hends hlimit

theorem unpack?_eq_none_iff :
    Image.unpack? ⟨.registerAll calls, names, order⟩ expected limit data = none ↔
      ∃ last, Chain calls names order limit data last := by
  constructor
  · intro hnone
    rcases chain_or_ends calls names order expected limit data with
      hchain | ⟨layers, last, outcome, hlimit, hchain, hends⟩
    · exact hchain
    · rw [hchain.unpack?_eq_some hends hlimit] at hnone
      cases hnone
  · intro h
    rcases h with ⟨last, hchain⟩
    exact hchain.unpack?_eq_none expected

theorem length_eq_of_unpack? {image : Image} {limit : Nat}
    (hunpack : image.unpack? expected limit data = some (.ok content)) :
    content.length = expected := by
  induction limit generalizing data with
  | zero => cases hunpack
  | succ limit ih =>
      rw [Image.unpack?] at hunpack
      split at hunpack
      · cases hunpack
      · rw [Image.checkSize] at hunpack
        split at hunpack
        · rename_i hsize
          cases hunpack
          exact hsize
        · cases hunpack
      · exact ih hunpack

/--
Unpacking gives content exactly if a chain of layers leads to it and it has no header
and the size expected.  It fails exactly as the first data that breaks the chain tells,
or else by the size of what is left.  Whether it gives an answer at all within a limit
depends on the number of layers alone.
-/
theorem unpack_follows_chain (calls : List Decompressor) (names : NameTable) (order : ByteOrder)
    (expected limit : Nat) (data : Bytes) :
    (∀ content,
      Image.unpack? ⟨.registerAll calls, names, order⟩ expected limit data =
          some (.ok content) ↔
        ∃ layers, layers < limit ∧ Chain calls names order layers data content ∧
          ¬ Header.IsMarked order content ∧ content.length = expected) ∧
    (∀ failure,
      Image.unpack? ⟨.registerAll calls, names, order⟩ expected limit data =
          some (.error failure) ↔
        ∃ layers last, layers < limit ∧ Chain calls names order layers data last ∧
          (Breaks calls names order last failure ∨
            ¬ Header.IsMarked order last ∧ last.length ≠ expected ∧
              failure = .error (.sizeMismatch expected last.length))) ∧
    (Image.unpack? ⟨.registerAll calls, names, order⟩ expected limit data = none ↔
      ∃ last, Chain calls names order limit data last) := by
  refine ⟨?_, ?_, unpack?_eq_none_iff⟩
  · intro content
    rw [unpack?_eq_some_iff]
    constructor
    · intro h
      rcases h with ⟨layers, last, hlimit, hchain, hends⟩
      cases hends with
      | whole hmarked hsize => exact ⟨layers, hlimit, hchain, hmarked, hsize⟩
    · intro h
      rcases h with ⟨layers, hlimit, hchain, hmarked, hsize⟩
      exact ⟨layers, content, hlimit, hchain, .whole hmarked hsize⟩
  · intro failure
    rw [unpack?_eq_some_iff]
    constructor
    · intro h
      rcases h with ⟨layers, last, hlimit, hchain, hends⟩
      refine ⟨layers, last, hlimit, hchain, ?_⟩
      cases hends with
      | size hmarked hsize => exact Or.inr ⟨hmarked, hsize, rfl⟩
      | broken hbreaks => exact Or.inl hbreaks
    · intro h
      rcases h with ⟨layers, last, hlimit, hchain, hbreaks | ⟨hmarked, hsize, hfailure⟩⟩
      · exact ⟨layers, last, hlimit, hchain, .broken hbreaks⟩
      · rw [hfailure]
        exact ⟨layers, last, hlimit, hchain, .size hmarked hsize⟩

end Layers

end Resource
end BoundedZlib
