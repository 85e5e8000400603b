import BoundedZlib.Proofs.Capacity
import BoundedZlib.Proofs.Layers

/-!
# Packing and unpacking

Packing puts one layer around data, and unpacking takes it off and goes on with the
data, whatever that is and whatever follows the layer.  So layers that were packed one
around the other come off in the opposite order.  Data is refused only if it is too long
to be deflated, or if it looks like a header that is cut off.
-/

namespace BoundedZlib

namespace Resource

section Packing

variable {names : NameTable} {order : ByteOrder} {offset : UInt32} {offsets : List UInt32}
variable {data packed : Bytes} {error : Error}

/-!
## One layer
-/

def layerHeader (data payload : Bytes) (offset : UInt32) (order : ByteOrder) : Header :=
  { Header.ofSizes (UInt64.ofNat payload.length) (UInt64.ofNat data.length) offset with
    terminal := if Header.hasMagic data order then 0 else 1 }

theorem isTerminal_layerHeader {payload : Bytes} :
    (layerHeader data payload offset order).isTerminal = true ↔
      ¬ Header.IsMarked order data := by
  rw [← Header.hasMagic_iff]
  cases hmagic : Header.hasMagic data order <;> simp [layerHeader, Header.isTerminal, hmagic]

theorem pack_of_refused (hdeflate : deflateToBound data = .error error) (offset : UInt32)
    (order : ByteOrder) :
    pack data offset order = .error error := by
  simp only [pack, hdeflate, bind, Except.bind]

theorem pack_of_cutOff {payload : Bytes} (hdeflate : deflateToBound data = .ok payload)
    (hmarked : Header.IsMarked order data) (hshort : data.length < Header.length)
    (offset : UInt32) :
    pack data offset order =
      .error (.invalidHeader s!"truncated: {data.length} of {Header.length} bytes") := by
  simp only [pack, hdeflate, Header.read_of_isMarked_of_lt hmarked hshort, bind, Except.bind]

theorem pack_of_whole {payload : Bytes} (hdeflate : deflateToBound data = .ok payload)
    (hwhole : ¬ (Header.IsMarked order data ∧ data.length < Header.length)) (offset : UInt32) :
    pack data offset order =
      .ok ((layerHeader data payload offset order).write order ++ payload) := by
  by_cases hmarked : Header.IsMarked order data
  · have hlength := Nat.not_lt.mp fun hshort => hwhole ⟨hmarked, hshort⟩
    rcases Header.exists_opens hmarked hlength with ⟨inner, hread, _⟩
    simp only [pack, hdeflate, hread, layerHeader, Header.hasMagic_iff.mpr hmarked, bind,
      Except.bind, pure, Except.pure]
    rfl
  · have hmagic : Header.hasMagic data order = false := by
      rw [← Bool.not_eq_true, Header.hasMagic_iff]
      exact hmarked
    simp only [pack, hdeflate, Header.read_of_not_isMarked hmarked, layerHeader, hmagic, bind,
      Except.bind, pure, Except.pure]
    rfl

theorem pack_eq_ok_iff :
    pack data offset order = .ok packed ↔
      ∃ payload, deflateToBound data = .ok payload ∧
        ¬ (Header.IsMarked order data ∧ data.length < Header.length) ∧
        (layerHeader data payload offset order).write order ++ payload = packed := by
  constructor
  · intro hpack
    cases hdeflate : deflateToBound data with
    | error error =>
        rw [pack_of_refused hdeflate] at hpack
        cases hpack
    | ok payload =>
        by_cases hwhole : Header.IsMarked order data ∧ data.length < Header.length
        · rw [pack_of_cutOff hdeflate hwhole.left hwhole.right] at hpack
          cases hpack
        · rw [pack_of_whole hdeflate hwhole, Except.ok.injEq] at hpack
          exact ⟨payload, rfl, hwhole, hpack⟩
  · intro h
    rcases h with ⟨payload, hdeflate, hwhole, hpacked⟩
    rw [pack_of_whole hdeflate hwhole, hpacked]

theorem layerHeader_sizes {payload : Bytes} (hdeflate : deflateToBound data = .ok payload)
    (offset : UInt32) (order : ByteOrder) :
    (layerHeader data payload offset order).size.toNat = payload.length ∧
      (layerHeader data payload offset order).contentSize.toNat = data.length := by
  have hpayload := (inflateToSize_of_deflateToBound hdeflate).left
  have hdata := (deflateToBound_eq_ok.mp hdeflate).left.left
  exact ⟨UInt64.toNat_ofNat_of_lt' (Nat.lt_of_le_of_lt hpayload (by decide)),
    UInt64.toNat_ofNat_of_lt' (Nat.lt_of_le_of_lt hdata (by decide))⟩

theorem layer_of_pack (hholds : names.Holds offset Decompressor.zipName)
    (hpack : pack data offset order = .ok packed) (more : Bytes) :
    Layer [.zip] names order (packed ++ more) data := by
  rcases pack_eq_ok_iff.mp hpack with ⟨payload, hdeflate, _, hpacked⟩
  rcases layerHeader_sizes hdeflate offset order with ⟨hsize, hcontentSize⟩
  have hwritten : (layerHeader data payload offset order).write order ++ payload <+:
      packed ++ more := by
    rw [hpacked]
    exact List.prefix_append _ _
  apply Layer.intro
  · exact ⟨rfl, (List.prefix_append _ _).trans hwritten⟩
  · exact designates_zip_iff.mpr ⟨hholds, rfl⟩
  · exact ⟨hwritten, hsize.symm⟩
  · show inflateToSize payload _ = .ok data
    rw [hcontentSize]
    exact (inflateToSize_of_deflateToBound hdeflate).right
  · exact hcontentSize.symm

theorem exists_pack {payload : Bytes} (hdeflate : deflateToBound data = .ok payload)
    (hmarked : ¬ Header.IsMarked order data) (offset : UInt32) :
    ∃ packed, pack data offset order = .ok packed :=
  ⟨_, pack_of_whole hdeflate (fun h => hmarked h.left) offset⟩

theorem unpack?_of_pack (hholds : names.Holds offset Decompressor.zipName)
    (hpack : pack data offset order = .ok packed) (hmarked : ¬ Header.IsMarked order data)
    {limit : Nat} (hlimit : 1 < limit) :
    Image.unpack? ⟨.builtin, names, order⟩ data.length limit packed = some (.ok data) := by
  have hlayer := layer_of_pack hholds hpack []
  rw [List.append_nil] at hlayer
  exact (Chain.cons hlayer (.nil data)).unpack?_eq_some (.whole hmarked rfl) hlimit

def packAll (order : ByteOrder) (data : Bytes) (offsets : List UInt32) : Except Error Bytes :=
  offsets.foldlM (fun inner offset => pack inner offset order) data

theorem packAll_cons (hpack : packAll order data (offset :: offsets) = .ok packed) :
    ∃ inner, pack data offset order = .ok inner ∧ packAll order inner offsets = .ok packed := by
  rw [packAll, List.foldlM_cons] at hpack
  cases hinner : pack data offset order with
  | error error =>
      rw [hinner] at hpack
      cases hpack
  | ok inner =>
      rw [hinner] at hpack
      exact ⟨inner, rfl, hpack⟩

theorem chain_of_packAll (hholds : ∀ offset ∈ offsets, names.Holds offset Decompressor.zipName)
    (hpack : packAll order data offsets = .ok packed) :
    Chain [.zip] names order offsets.length packed data := by
  induction offsets generalizing data with
  | nil =>
      injection hpack with hpack
      rw [hpack]
      exact .nil packed
  | cons offset offsets ih =>
      rcases packAll_cons hpack with ⟨inner, hinner, hrest⟩
      have hlayer := layer_of_pack (hholds offset List.mem_cons_self) hinner []
      rw [List.append_nil] at hlayer
      exact (ih (fun other hmem => hholds other (List.mem_cons_of_mem _ hmem)) hrest).snoc hlayer

/--
What is packed unpacks as the data does, to the same content or the same failure, with
one more layer to strip; and data without a header that was packed any number of times
unpacks to itself.
-/
theorem unpack_transparent_to_pack (names : NameTable) (order : ByteOrder) (data : Bytes) :
    (∀ offset packed, names.Holds offset Decompressor.zipName →
      pack data offset order = .ok packed →
      ∀ more expected limit,
        Image.unpack? ⟨.builtin, names, order⟩ expected (limit + 1) (packed ++ more) =
          Image.unpack? ⟨.builtin, names, order⟩ expected limit data) ∧
    ∀ offsets packed, (∀ offset ∈ offsets, names.Holds offset Decompressor.zipName) →
      packAll order data offsets = .ok packed →
      ¬ Header.IsMarked order data →
      ∀ limit, offsets.length < limit →
        Image.unpack? ⟨.builtin, names, order⟩ data.length limit packed = some (.ok data) := by
  constructor
  · intro offset packed hholds hpack more expected limit
    exact (layer_of_pack hholds hpack more).unpack?_eq expected limit
  · intro offsets packed hholds hpack hmarked limit hlimit
    exact (chain_of_packAll hholds hpack).unpack?_eq_some (.whole hmarked rfl) hlimit

end Packing

theorem holds_zip : NameTable.Holds ⟨[0x7a, 0x69, 0x70, 0x00]⟩ 0 Decompressor.zipName :=
  ⟨[], [0], rfl, rfl, by decide, by decide, fun _ hmem => (Option.some.inj hmem).symm⟩

/--
Two layers around one letter come off again.  Where two bytes are expected, the letter
in one layer with bytes behind it is refused for its size, as it is without the layer.
-/
theorem unpack_letter_in_two_layers :
    ∃ packed, packAll .little [0x61] [0, 0] = .ok packed ∧
      Image.unpack? ⟨.builtin, ⟨[0x7a, 0x69, 0x70, 0x00]⟩, .little⟩ 1 3 packed =
        some (.ok [0x61]) ∧
      ∃ inner, pack [0x61] 0 .little = .ok inner ∧
        Image.unpack? ⟨.builtin, ⟨[0x7a, 0x69, 0x70, 0x00]⟩, .little⟩ 2 2 (inner ++ [1, 2, 3]) =
          some (.error (.error (.sizeMismatch 2 1))) := by
  have hholds := holds_zip
  have hmarked : ¬ Header.IsMarked .little [0x61] := by
    intro h
    exact absurd h.length_le (by decide)
  have hboth : (packAll .little [0x61] [0, 0]).isOk = true := by decide +kernel
  rcases unpack_transparent_to_pack ⟨[0x7a, 0x69, 0x70, 0x00]⟩ .little [0x61] with ⟨hone, hall⟩
  cases hpacked : packAll .little [0x61] [0, 0] with
  | error error =>
      rw [hpacked] at hboth
      cases hboth
  | ok packed =>
      rcases packAll_cons hpacked with ⟨inner, hinner, _⟩
      refine ⟨packed, rfl, ?_, inner, hinner, ?_⟩
      · exact hall [0, 0] packed (by simpa using hholds) hpacked hmarked 3 (by decide)
      · rw [hone 0 inner hholds hinner]
        rfl

/-!
## What packing refuses, and what its header says
-/

section Outcomes

variable {names : NameTable} {order : ByteOrder} {data : Bytes} {error : Error}

theorem isMarked_and_lt_iff :
    Header.IsMarked order data ∧ data.length < Header.length ↔
      ∃ rest, data = Header.magicBytes order ++ rest ∧ rest.length < 25 := by
  rw [Header.IsMarked, Header.encode_magicNumber]
  have hfour : (Header.magicBytes order).length = 4 := by
    cases order <;> rfl
  have htotal : Header.length = 4 + 25 := rfl
  constructor
  · intro h
    rcases h with ⟨⟨rest, hdata⟩, hshort⟩
    rw [← hdata, List.length_append, hfour, htotal] at hshort
    exact ⟨rest, hdata.symm, Nat.lt_of_add_lt_add_left hshort⟩
  · intro h
    rcases h with ⟨rest, hdata, hrest⟩
    rw [hdata, List.length_append, hfour, htotal]
    exact ⟨List.prefix_append _ _, Nat.add_lt_add_left hrest 4⟩

theorem strip?_eq_none_iff (calls : List Decompressor) :
    Image.strip? ⟨.registerAll calls, names, order⟩ data = .ok none ↔
      ¬ Header.IsMarked order data := by
  constructor
  · intro hstrip
    rcases layer_cases calls names order data with hmarked | ⟨content, hlayer⟩ | ⟨failure, hbreaks⟩
    · exact hmarked
    · rw [hlayer.strip?_eq] at hstrip
      cases hstrip
    · rw [hbreaks.strip?_eq] at hstrip
      cases hstrip
  · exact strip?_of_not_isMarked

theorem pack_eq_error_iff {offset : UInt32} :
    pack data offset order = .error error ↔
      ¬ (data.length ≤ 4294967295 ∧ compressBound data.length ≤ 4294967295) ∧
        error = (if data.length ≤ 4294967295
          then .bufferTooLarge (compressBound data.length) 4294967295
          else .bufferTooLarge data.length 4294967295) ∨
      (data.length ≤ 4294967295 ∧ compressBound data.length ≤ 4294967295) ∧
        (Header.IsMarked order data ∧ data.length < Header.length) ∧
        error = .invalidHeader s!"truncated: {data.length} of {Header.length} bytes" := by
  by_cases hlengths : data.length ≤ 4294967295 ∧ compressBound data.length ≤ 4294967295
  · rcases exists_deflateToBound hlengths.right with ⟨payload, hdeflate⟩
    by_cases hwhole : Header.IsMarked order data ∧ data.length < Header.length
    · rw [pack_of_cutOff hdeflate hwhole.left hwhole.right, Except.error.injEq]
      constructor
      · intro herror
        exact Or.inr ⟨hlengths, hwhole, herror.symm⟩
      · intro h
        rcases h with ⟨hrefused, _⟩ | ⟨_, _, herror⟩
        · exact absurd hlengths hrefused
        · exact herror.symm
    · rw [pack_of_whole hdeflate hwhole]
      constructor
      · intro hpack
        cases hpack
      · intro h
        rcases h with ⟨hrefused, _⟩ | ⟨_, hcutOff, _⟩
        · exact absurd hlengths hrefused
        · exact absurd hcutOff hwhole
  · rw [pack_of_refused (deflateToBound_of_lengths_lt hlengths), Except.error.injEq]
    constructor
    · intro herror
      exact Or.inl ⟨hlengths, herror.symm⟩
    · intro h
      rcases h with ⟨_, herror⟩ | ⟨hcounted, _⟩
      · exact herror.symm
      · exact absurd hcounted hlengths

/--
Data is packed exactly if it and the room for it can be counted and it is not a header
that is cut off; these are refused in this order.  The header of the layer tells the
name and both sizes, and it is marked as the last exactly if unpacking, once it has
stripped the layer, finds no other.
-/
theorem pack_agrees_with_unpack (data : Bytes) (offset : UInt32) (order : ByteOrder) :
    ((∃ packed, pack data offset order = .ok packed) ↔
      (data.length ≤ 4294967295 ∧ compressBound data.length ≤ 4294967295) ∧
        ¬ ∃ rest, data = Header.magicBytes order ++ rest ∧ rest.length < 25) ∧
    (∀ error, pack data offset order = .error error ↔
      ¬ (data.length ≤ 4294967295 ∧ compressBound data.length ≤ 4294967295) ∧
        error = (if data.length ≤ 4294967295
          then .bufferTooLarge (compressBound data.length) 4294967295
          else .bufferTooLarge data.length 4294967295) ∨
      (data.length ≤ 4294967295 ∧ compressBound data.length ≤ 4294967295) ∧
        (∃ rest, data = Header.magicBytes order ++ rest ∧ rest.length < 25) ∧
        error = .invalidHeader s!"truncated: {data.length} of {Header.length} bytes") ∧
    ∀ packed, pack data offset order = .ok packed →
      ∃ header, Header.read packed order = .ok (some header) ∧ header.nameOffset = offset ∧
        29 + header.size.toNat = packed.length ∧ header.contentSize.toNat = data.length ∧
        (header.isTerminal = true ↔ ¬ Header.IsMarked order data) ∧
        ∀ names : NameTable, names.Holds offset Decompressor.zipName →
          Image.strip? ⟨.builtin, names, order⟩ packed = .ok (some data) ∧
            (header.isTerminal = true ↔
              Image.strip? ⟨.builtin, names, order⟩ data = .ok none) := by
  refine ⟨?_, ?_, ?_⟩
  · rw [← isMarked_and_lt_iff]
    constructor
    · intro h
      rcases h with ⟨packed, hpack⟩
      rcases pack_eq_ok_iff.mp hpack with ⟨payload, hdeflate, hwhole, _⟩
      exact ⟨(deflateToBound_eq_ok.mp hdeflate).left, hwhole⟩
    · intro h
      rcases h with ⟨hlengths, hwhole⟩
      rcases exists_deflateToBound hlengths.right with ⟨payload, hdeflate⟩
      exact ⟨_, pack_of_whole hdeflate hwhole offset⟩
  · intro error
    rw [pack_eq_error_iff, isMarked_and_lt_iff]
  · intro packed hpack
    rcases pack_eq_ok_iff.mp hpack with ⟨payload, hdeflate, _, hpacked⟩
    rcases layerHeader_sizes hdeflate offset order with ⟨hsize, hcontentSize⟩
    refine ⟨layerHeader data payload offset order, ?_, rfl, ?_, hcontentSize,
      isTerminal_layerHeader, ?_⟩
    · rw [← hpacked]
      exact Header.read_write _ order payload rfl
    · rw [← hpacked, List.length_append, Header.length_write, hsize]
      rfl
    · intro names hholds
      have hlayer := layer_of_pack hholds hpack []
      rw [List.append_nil] at hlayer
      refine ⟨hlayer.strip?_eq, ?_⟩
      rw [isTerminal_layerHeader]
      exact (strip?_eq_none_iff [.zip]).symm

end Outcomes

/-- A letter is packed in a layer that is marked as the last and is the last. -/
theorem pack_letter_agrees_with_unpack :
    ∃ packed header, pack [0x61] 0 .little = .ok packed ∧
      Header.read packed .little = .ok (some header) ∧ header.nameOffset = 0 ∧
      29 + header.size.toNat = packed.length ∧ header.contentSize.toNat = 1 ∧
      header.isTerminal = true ∧
      Image.strip? ⟨.builtin, ⟨[0x7a, 0x69, 0x70, 0x00]⟩, .little⟩ packed = .ok (some [0x61]) ∧
      Image.strip? ⟨.builtin, ⟨[0x7a, 0x69, 0x70, 0x00]⟩, .little⟩ [0x61] = .ok none := by
  rcases pack_agrees_with_unpack [0x61] 0 .little with ⟨hpacks, _, htells⟩
  have hmarked : ¬ Header.IsMarked .little [0x61] := by
    intro h
    exact absurd h.length_le (by decide)
  have hcounted : [0x61].length ≤ 4294967295 ∧ compressBound [0x61].length ≤ 4294967295 := by
    decide
  rcases hpacks.mpr ⟨hcounted, fun h => hmarked (isMarked_and_lt_iff.mpr h).left⟩ with
    ⟨packed, hpack⟩
  rcases htells packed hpack with
    ⟨header, hread, hoffset, hsize, hcontentSize, hterminal, hunpacks⟩
  have hlast := hterminal.mpr hmarked
  rcases hunpacks _ holds_zip with ⟨hstrip, hends⟩
  exact ⟨packed, header, hpack, hread, hoffset, hsize, hcontentSize, hlast, hstrip,
    hends.mp hlast⟩

end Resource
end BoundedZlib
