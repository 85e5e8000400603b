import BoundedZlib.Proofs.AssembledStreams
import BoundedZlib.Proofs.Packing
import Mathlib.Data.Set.Finite.List

/-!
# Layers that come round

Content is compared with the size that its header tells, so there are only finitely
many contents, however many layers there are.  A chain that is long enough comes upon
one of them twice, and since unpacking goes on from the content alone, it goes round
from there on.  So unpacking ends exactly where the layers do not come round.
-/

namespace BoundedZlib

namespace Resource

section Recurrence

variable {calls : List Decompressor} {names : NameTable} {order : ByteOrder}
variable {data content last other : Bytes} {front back layers limit : Nat}

/-!
## Chains in parts
-/

theorem Layer.unique (hlayer : Layer calls names order data content)
    (hother : Layer calls names order data other) :
    content = other := by
  have hstrip := hlayer.strip?_eq
  rw [hother.strip?_eq, Except.ok.injEq, Option.some.injEq] at hstrip
  exact hstrip.symm

theorem Chain.unique (hchain : Chain calls names order layers data last)
    (hother : Chain calls names order layers data other) :
    last = other := by
  induction hchain with
  | nil data =>
      cases hother
      rfl
  | cons hlayer _ ih =>
      cases hother with
      | cons hlayer' hrest => exact ih (hlayer.unique hlayer' ▸ hrest)

theorem Chain.append (hfront : Chain calls names order front data content)
    (hback : Chain calls names order back content last) :
    Chain calls names order (front + back) data last := by
  induction hfront with
  | nil data =>
      rw [Nat.zero_add]
      exact hback
  | cons hlayer _ ih =>
      rw [Nat.add_right_comm]
      exact .cons hlayer (ih hback)

theorem Chain.split (hchain : Chain calls names order (front + back) data last) :
    ∃ content, Chain calls names order front data content ∧
      Chain calls names order back content last := by
  induction front generalizing data with
  | zero =>
      rw [Nat.zero_add] at hchain
      exact ⟨data, .nil data, hchain⟩
  | succ front ih =>
      rw [Nat.add_right_comm] at hchain
      cases hchain with
      | cons hlayer hrest =>
          rcases ih hrest with ⟨content, hfront, hback⟩
          exact ⟨content, .cons hlayer hfront, hback⟩

theorem Layer.length_lt (hlayer : Layer calls names order data content) :
    content.length < 2 ^ 64 := by
  rcases hlayer with ⟨_, _, _, _, hsize⟩
  rw [hsize]
  exact UInt64.toNat_lt _

theorem Chain.length_lt (hchain : Chain calls names order (layers + 1) data last) :
    last.length < 2 ^ 64 := by
  rcases hchain.split with ⟨_, _, hlast⟩
  cases hlast with
  | cons hlayer hnil =>
      cases hnil
      exact hlayer.length_lt

/-!
## Coming round
-/

/-- Some layers further in there is content that is around itself, directly or through others. -/
def ComesRound (calls : List Decompressor) (names : NameTable) (order : ByteOrder)
    (data : Bytes) : Prop :=
  ∃ layers period content, 0 < period ∧ Chain calls names order layers data content ∧
    Chain calls names order period content content

theorem Chain.times {period : Nat} (hround : Chain calls names order period content content)
    (count : Nat) :
    Chain calls names order (count * period) content content := by
  induction count with
  | zero =>
      rw [Nat.zero_mul]
      exact .nil content
  | succ count ih =>
      rw [Nat.succ_mul]
      exact ih.append hround

theorem ComesRound.exists_chain (hround : ComesRound calls names order data) (limit : Nat) :
    ∃ last, Chain calls names order limit data last := by
  rcases hround with ⟨layers, period, content, hpos, hfront, hback⟩
  have hlong := hfront.append (hback.times limit)
  have hlimit : limit ≤ layers + limit * period :=
    Nat.le_add_left_of_le (Nat.le_mul_of_pos_right limit hpos)
  rw [← Nat.add_sub_cancel' hlimit] at hlong
  rcases hlong.split with ⟨last, hchain, _⟩
  exact ⟨last, hchain⟩

theorem Chain.comesRound (hfront : Chain calls names order front data content)
    (hlong : Chain calls names order layers data content)
    (hlt : front < layers) :
    ComesRound calls names order data := by
  rw [← Nat.add_sub_cancel' (Nat.le_of_lt hlt)] at hlong
  rcases hlong.split with ⟨middle, hmiddle, hback⟩
  rw [← hfront.unique hmiddle] at hback
  exact ⟨front, layers - front, content, Nat.sub_pos_of_lt hlt, hfront, hback⟩

/-- Chains of all lengths come upon some content twice, as there are only finitely many. -/
theorem comesRound_of_chains (hchains : ∀ limit, ∃ last, Chain calls names order limit data last) :
    ComesRound calls names order data := by
  have hbyte : Finite UInt8 := .of_injective UInt8.toFin fun _ _ => UInt8.toFin_inj.mp
  choose contents hchain using fun place => hchains (place + 1)
  have hlength : Set.MapsTo contents Set.univ { content | content.length < 2 ^ 64 } :=
    fun place _ => (hchain place).length_lt
  rcases Set.infinite_univ.exists_ne_map_eq_of_mapsTo hlength (List.finite_length_lt UInt8 _) with
    ⟨place, _, place', _, hne, hsame⟩
  rcases Nat.lt_or_gt_of_ne hne with hlt | hgt
  · exact (hchain place).comesRound (hsame ▸ hchain place') (Nat.succ_lt_succ hlt)
  · exact (hchain place').comesRound (hsame ▸ hchain place) (Nat.succ_lt_succ hgt)

theorem comesRound_iff :
    ComesRound calls names order data ↔
      ∀ limit, ∃ last, Chain calls names order limit data last :=
  ⟨ComesRound.exists_chain, comesRound_of_chains⟩

/-- Unpacking ends, with content or with a failure, exactly if the layers do not come round. -/
theorem unpack?_ends_iff {expected : Nat} :
    (∃ limit outcome,
      Image.unpack? ⟨.registerAll calls, names, order⟩ expected limit data = some outcome) ↔
      ¬ ComesRound calls names order data := by
  rw [comesRound_iff, not_forall]
  apply exists_congr
  intro limit
  rw [← Option.ne_none_iff_exists', ne_eq, unpack?_eq_none_iff]

/-!
## Decompressors that add little
-/

/-- No decompressor gives more than so many bytes beyond its payload. -/
def GrowsBy (growth : Nat) (calls : List Decompressor) : Prop :=
  ∀ decompressor ∈ calls, ∀ payload header content, decompressor.run payload header = .ok content →
    content.length ≤ payload.length + growth

theorem Designates.mem {offset : UInt32} {decompressor : Decompressor}
    (hdesignates : Designates calls names offset decompressor) :
    decompressor ∈ calls := by
  rcases hdesignates with ⟨_, _, older, newer, hcalls, _⟩
  rw [hcalls]
  exact List.mem_append_right _ List.mem_cons_self

section Growth

variable {growth : Nat}

theorem Layer.length_add_le (hlayer : Layer calls names order data content)
    (hgrows : GrowsBy growth calls) :
    content.length + Header.length ≤ data.length + growth := by
  rcases hlayer with ⟨_, hdesignates, hcarries, hrun, _⟩
  have hcontent := hgrows _ hdesignates.mem _ _ _ hrun
  have hdata := hcarries.written.length_le
  rw [List.length_append, Header.length_write] at hdata
  omega

theorem Chain.length_add_le (hchain : Chain calls names order layers data last)
    (hgrows : GrowsBy growth calls) (hless : growth ≤ Header.length) :
    last.length + layers * (Header.length - growth) ≤ data.length := by
  induction hchain with
  | nil data => rw [Nat.zero_mul, Nat.add_zero]
  | cons hlayer _ ih =>
      have hle := hlayer.length_add_le hgrows
      rw [Nat.succ_mul]
      omega

theorem unpack?_of_growsBy (hgrows : GrowsBy growth calls) (hless : growth < Header.length)
    (expected : Nat) (hlimit : data.length / (Header.length - growth) < limit) :
    ∃ outcome,
      Image.unpack? ⟨.registerAll calls, names, order⟩ expected limit data = some outcome := by
  cases hunpack : Image.unpack? ⟨.registerAll calls, names, order⟩ expected limit data with
  | some outcome => exact ⟨outcome, rfl⟩
  | none =>
      rcases unpack?_eq_none_iff.mp hunpack with ⟨last, hchain⟩
      have hle := hchain.length_add_le hgrows (Nat.le_of_lt hless)
      rw [Nat.div_lt_iff_lt_mul (Nat.sub_pos_of_lt hless)] at hlimit
      exact absurd (Nat.le_of_add_left_le hle) (Nat.not_le.mpr hlimit)

end Growth

/--
Unpacking ends exactly if the layers do not come round.  They do not where no
decompressor adds as many bytes as a header has, and the number of layers is bounded then.
-/
theorem unpack_ends_unless_layers_come_round (calls : List Decompressor) (names : NameTable)
    (order : ByteOrder) (data : Bytes) (expected : Nat) :
    ((∃ limit outcome,
      Image.unpack? ⟨.registerAll calls, names, order⟩ expected limit data = some outcome) ↔
      ¬ ComesRound calls names order data) ∧
    ∀ growth, growth < Header.length → GrowsBy growth calls →
      ∀ limit, data.length / (Header.length - growth) < limit →
        ∃ outcome, Image.unpack? ⟨.registerAll calls, names, order⟩ expected limit data =
          some outcome := by
  constructor
  · exact unpack?_ends_iff
  · intro growth hless hgrows limit hlimit
    exact unpack?_of_growsBy hgrows hless expected hlimit

end Recurrence

def Decompressor.reversing : Decompressor where
  name := "rev"
  run payload _ := .ok payload.reverse

theorem unpack_reversed_ends :
    GrowsBy 0 [.reversing] ∧
    (∃ outcome, Image.unpack? ⟨.registerAll [.reversing], ⟨[0x72, 0x65, 0x76, 0x00]⟩, .little⟩ 2 2
      ((Header.ofSizes 2 2 0).write .little ++ [0x62, 0x61]) = some outcome) ∧
    ¬ ComesRound [.reversing] ⟨[0x72, 0x65, 0x76, 0x00]⟩ .little
      ((Header.ofSizes 2 2 0).write .little ++ [0x62, 0x61]) := by
  have hgrows : GrowsBy 0 [.reversing] := by
    intro decompressor hmem payload header content hrun
    rw [List.mem_singleton.mp hmem] at hrun
    rw [← Except.ok.inj hrun, List.length_reverse]
    exact Nat.le_refl _
  rcases unpack_ends_unless_layers_come_round [.reversing] ⟨[0x72, 0x65, 0x76, 0x00]⟩ .little
    ((Header.ofSizes 2 2 0).write .little ++ [0x62, 0x61]) 2 with ⟨hends, hbounded⟩
  have houtcome := hbounded 0 (by decide) hgrows 2 (by decide)
  exact ⟨hgrows, houtcome, hends.mp ⟨2, houtcome⟩⟩

/-!
## A layer around itself

The payload of the layer below inflates to the layer itself.  Its blocks store a stretch
of bytes and then copy it, so that every stretch stands twice in the content: once for
what the layer has as bytes to be stored, and once for the layer itself.  A stretch
starts with the block that copies the stretch before it, and ends with the opening of the
block that stores the next one.
-/

namespace LayerAroundItself

def header : Header :=
  { Header.ofSizes 257 286 0 with terminal := 0 }

def storing (length : UInt8) : Bytes :=
  [0x00, length, 0x00, 255 - length, 0xff]

def copying71 : Bytes :=
  [0xfa, 0x45, 0x1d, 0x63, 0x00]

def copying20 : Bytes :=
  [0x42, 0x88, 0x21, 0xc4, 0x00]

def copying7 : Bytes :=
  [0x83, 0x52, 0x00]

def sum : Bytes :=
  [0x46, 0x46, 0x5e, 0xc0]

def first : Bytes :=
  header.write .little ++ [0x78, 0x01] ++ (List.replicate 7 (storing 0)).flatten ++ storing 71

def second : Bytes :=
  (copying71 ++ storing 5) ++ (storing 5 ++ storing 20)

def third : Bytes :=
  (copying20 ++ storing 20) ++ (copying20 ++ storing 20)

def fourth : Bytes :=
  (copying20 ++ storing 0) ++ (storing 0 ++ storing 7)

def fifth : Bytes :=
  copying7 ++ sum

def data : Bytes :=
  [first, first, copying71, storing 5, second, second, third, third, fourth, fourth, fifth,
    fifth].flatten

def blocks : List Block :=
  [(List.replicate 7 []).map .stored,
    [.stored first, .fixed [.literal 0xfa, .copy 70 71]],
    [copying71, storing 5].map .stored,
    [.stored second, .fixed [.copy 10 20, .copy 10 20]],
    [.stored third, .fixed [.copy 10 20, .copy 10 20]],
    [.stored fourth, .fixed [.copy 10 20, .copy 10 20]],
    [[], []].map .stored,
    [.stored fifth]].flatten

def last : Block :=
  .fixed [.copy 7 7]

theorem toList_spell_last : (last.spell (Block.spellAll #[] blocks)).toList = data := by
  have hrest : first.tail.length = 70 := rfl
  have hfirst (content : Content) :=
    Block.toList_spellAll_repeated content (show first = 0xfa :: first.tail from rfl) hrest rfl
  have hhalves (content : Content) {bytes front back : Bytes} (hbytes : bytes = front ++ back)
      (hfront : front.length = 10) (hback : back.length = 10) :=
    Block.toList_spellAll_halves content hbytes hfront hback (show 10 + 10 = 20 from rfl)
      (by decide)
  have hsecond (content : Content) := hhalves content second.eq_1 rfl rfl
  have hthird (content : Content) := hhalves content third.eq_1 rfl rfl
  have hfourth (content : Content) := hhalves content fourth.eq_1 rfl rfl
  have hlength : fifth.length = 7 := rfl
  have hfifth (content : Content) := Block.toList_spellAll_copied content hlength (by decide)
  have hnone : (List.replicate 7 ([] : Bytes)).flatten = [] := rfl
  rw [Block.spell_spellAll]
  simp only [blocks, last, data, List.flatten_cons, List.flatten_nil, List.append_nil,
    List.nil_append, List.append_assoc, List.singleton_append, Block.spellAll_append,
    Block.toList_spellAll_stored, hfirst, hsecond, hthird, hfourth, hfifth, hnone]

theorem checksum_data : Format.checksum data = 0x46465ec0 := by
  rw [← Adler.value_ofBytes]
  decide +kernel

theorem stream_data : Format.Stream (data.drop Header.length) data := by
  refine Format.stream_of_blocks Format.isHeader_stored (by decide +kernel) (by decide)
    toList_spell_last rfl rfl ?_
  rw [checksum_data]
  decide +kernel

theorem layer_data :
    Layer [.zip] ⟨[0x7a, 0x69, 0x70, 0x00]⟩ .little data data := by
  have hwritten : header.write .little ++ data.drop Header.length = data := by decide +kernel
  have hpayload : (data.drop Header.length).length = header.size.toNat := by decide +kernel
  have hsize : data.length = header.contentSize.toNat := by decide +kernel
  have hopens : header.Opens .little data := ⟨rfl, _, hwritten⟩
  refine .intro hopens (designates_zip_iff.mpr ⟨holds_zip, rfl⟩)
    ⟨⟨[], by rw [List.append_nil, hwritten]⟩, hpayload⟩ ?_ hsize
  apply inflateToSize_eq_ok.mpr
  refine ⟨?_, hsize, Inflater.isFinished_iff_stream.mpr
    ⟨_, [], (List.append_nil _).symm, stream_data⟩⟩
  rw [hpayload]
  decide

end LayerAroundItself

/-- A layer of the built-in decompressor is around itself, and unpacking it does not end. -/
theorem unpack_layer_around_itself :
    Image.strip? ⟨.builtin, ⟨[0x7a, 0x69, 0x70, 0x00]⟩, .little⟩ LayerAroundItself.data =
      .ok (some LayerAroundItself.data) ∧
    ∀ expected limit,
      Image.unpack? ⟨.builtin, ⟨[0x7a, 0x69, 0x70, 0x00]⟩, .little⟩ expected limit
        LayerAroundItself.data = none := by
  have hlayer := LayerAroundItself.layer_data
  refine ⟨hlayer.strip?_eq, ?_⟩
  intro expected limit
  have hround := Chain.times (.cons hlayer (.nil _)) limit
  rw [Nat.mul_one] at hround
  exact hround.unpack?_eq_none expected

end Resource
end BoundedZlib
