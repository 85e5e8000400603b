import BoundedZlib.Proofs.FixedCodes
import BoundedZlib.Proofs.Spelling

/-!
# Writing blocks

The blocks that the encoder writes for data are blocks of the format.  After
them the content is the data up to the place that the last one reaches, and they
are not much longer than the data itself.
-/

namespace BoundedZlib

open Token

/-!
## Tokens
-/

section Tokens

variable {data : Content} {start stop place length distance : Nat} {tokens : List Token}

theorem length_take_toList (hplace : place ≤ data.size) :
    (data.toList.take place).length = place := by
  rw [List.length_take, Array.length_toList, Nat.min_eq_left hplace]

theorem getElem?_take_toList {i : Nat} (hi : i < place) (hplace : place ≤ data.size) :
    (data.toList.take place)[i]? = some (data.getD i 0) := by
  have hlt : i < data.size := Nat.lt_of_lt_of_le hi hplace
  rw [List.getElem?_take_of_lt hi, Array.getElem?_toList, Array.getElem?_eq_getElem hlt,
    Array.getD_eq_getD_getElem?, Array.getElem?_eq_getElem hlt, Option.getD_some]

theorem take_succ_toList (hplace : place < data.size) :
    data.toList.take (place + 1) = data.toList.take place ++ [data.getD place 0] := by
  have hnext := getElem?_take_toList (Nat.lt_succ_self place) hplace
  rw [List.getElem?_take_of_lt (Nat.lt_succ_self place)] at hnext
  rw [List.take_add_one, hnext]
  rfl

theorem repeats_take
    (hback : distance ≤ place)
    (hstop : place + length ≤ data.size)
    (hagree : ∀ i, i < length → data.getD (place + i) 0 = data.getD (place - distance + i) 0) :
    Format.Repeats length distance (data.toList.take place)
      (data.toList.take (place + length)) := by
  have hbefore := length_take_toList (Nat.le_of_add_right_le hstop)
  have hafter := length_take_toList hstop
  refine ⟨?_, ?_, ?_⟩
  · exact List.take_prefix_take_left (Nat.le_add_right place length)
  · rw [hbefore, hafter]
  · intro i hi hlt
    rw [hbefore] at hi
    rw [hafter] at hlt
    rw [if_pos (Nat.le_trans hback hi), getElem?_take_toList hlt hstop,
      getElem?_take_toList (Nat.lt_of_le_of_lt (Nat.sub_le i distance) hlt) hstop]
    have hsame := hagree (i - place) (by omega)
    rw [Nat.add_sub_cancel' hi, show place - distance + (i - place) = i - distance by omega]
      at hsame
    rw [hsame]

def Token.InRange : Token → Prop
  | literal _ => True
  | copy length distance =>
      (minLength ≤ length ∧ length ≤ maxCopy) ∧ 1 ≤ distance ∧ distance ≤ maxDistance

instance : DecidablePred Token.InRange
  | literal _ => inferInstanceAs (Decidable True)
  | copy _ _ => inferInstanceAs (Decidable (_ ∧ _))

theorem Token.InRange.isToken {token : Token} (hrange : token.InRange) :
    Format.IsToken Format.fixedLiterals Format.fixedDistances (Codes.fixedToken token)
      (some token) := by
  cases token with
  | literal byte =>
      exact .literal (Format.isCode_fixedLiteral (Nat.lt_trans (UInt8.toNat_lt _) (by decide)))
  | copy length distance =>
      rcases hrange with ⟨hlength, hdistance⟩
      have hlengthIs := Format.isLength_encode hlength.left hlength.right
      have hdistanceIs := Format.isDistance_encode hdistance.left hdistance.right
      have hlengthCode := Format.isCode_fixedLiteral (Nat.add_lt_add_left
        (Nat.lt_trans hlengthIs.left (by decide : 29 < 31)) 257)
      have hdistanceCode := Format.isCode_fixedDistance
        (Nat.lt_trans hdistanceIs.left (by decide : 30 < 32))
      have hcopy := Format.IsToken.copy hlengthCode hlengthIs hdistanceCode hdistanceIs
      rw [List.append_assoc] at hcopy
      exact hcopy

theorem Token.Fits.inRange {token : Token} (hfits : Fits data place token) : token.InRange := by
  cases hfits with
  | literal hplace => exact trivial
  | copy hlength hdistance => exact ⟨hlength, hdistance⟩

theorem Token.Fits.spell_take {token : Token} (hfits : Fits data place token) :
    (Content.spell (data.toList.take place).toArray token).toList =
      data.toList.take (place + token.size) := by
  cases hfits with
  | literal hplace =>
      rw [Token.size, take_succ_toList hplace]
      simp [Content.spell]
  | copy hlength hdistance hback hstop hagree =>
      exact (Format.repeats_iff hdistance.left).mp (repeats_take hback hstop hagree)

theorem Format.Tokens.cons {literals distances : List Nat} {before middle after : Bytes}
    {code rest : List Bool} {token : Token}
    (htoken : IsToken literals distances code (some token))
    (hspell : (Content.spell before.toArray token).toList = middle)
    (hrest : Tokens literals distances middle rest after) :
    Tokens literals distances before (code ++ rest) after := by
  cases htoken with
  | @literal byte _ hcode =>
      rw [show middle = before ++ [byte] by rw [← hspell]; simp [Content.spell]] at hrest
      exact .literal hcode hrest
  | copy hlengthCode hlength hdistanceCode hdistance =>
      exact .copy hlengthCode hlength hdistanceCode hdistance
        ((repeats_iff hdistance.pos).mpr hspell) hrest

/-- Tokens that have codes, and the end of the block, add what they spell to any content. -/
theorem Token.fixed_tokens (hrange : ∀ token ∈ tokens, token.InRange) (content : Content) :
    Format.Tokens Format.fixedLiterals Format.fixedDistances content.toList
      (tokens.flatMap Codes.fixedToken ++ Codes.fixedLiteral Codes.endOfBlock)
      (content.spellAll tokens).toList := by
  induction tokens generalizing content with
  | nil => exact .stop (Format.isCode_fixedLiteral (by decide))
  | cons token rest ih =>
      rw [List.flatMap_cons, List.append_assoc]
      exact .cons (hrange token List.mem_cons_self).isToken rfl
        (ih (fun other hmem => hrange other (List.mem_cons_of_mem _ hmem)) _)

theorem Token.Cover.inRange (hcover : Cover data start tokens stop) :
    ∀ token ∈ tokens, token.InRange := by
  induction hcover with
  | nil => exact List.forall_mem_nil _
  | cons htoken _ ih => exact List.forall_mem_cons.mpr ⟨htoken.inRange, ih⟩

theorem Token.Cover.spellAll_take (hcover : Cover data start tokens stop) :
    (Content.spellAll (data.toList.take start).toArray tokens).toList = data.toList.take stop := by
  induction hcover with
  | nil => rfl
  | @cons place stop token rest htoken _ ih =>
      rw [← htoken.spell_take] at ih
      exact ih

end Tokens

/-!
## Blocks
-/

namespace Block

def InRange : Block → Prop
  | stored bytes => bytes.length < 2 ^ 16
  | fixed tokens => ∀ token ∈ tokens, token.InRange

instance : DecidablePred InRange
  | stored _ => inferInstanceAs (Decidable (_ < _))
  | fixed _ => inferInstanceAs (Decidable (∀ _ ∈ _, _))

/-- The block holds the data from one place to another. -/
inductive Holds (data : Content) (start stop : Nat) : Block → Prop where
  | stored
      (hlength : stop - start < 2 ^ 16) :
      Holds data start stop (.stored (data.extract start stop).toList)
  | fixed {tokens : List Token}
      (hcover : Cover data start tokens stop) :
      Holds data start stop (.fixed tokens)

/-- The block takes no more bits than so many bytes stored at a place that has to be filled up. -/
def Frugal (size : Nat) (block : Block) : Prop :=
  ∀ final position, (block.bits final position).length ≤ 42 + 8 * size

/-- The blocks hold the data from one place to another, one after the other. -/
inductive Chain (data : Content) : (start : Nat) → List Block → (stop : Nat) → Prop where
  | nil {place : Nat} : Chain data place [] place
  | cons {start middle stop : Nat} {block : Block} {rest : List Block}
      (hle : start ≤ middle)
      (hholds : Holds data start middle block)
      (hfrugal : Frugal (middle - start) block)
      (hrest : Chain data middle rest stop) :
      Chain data start (block :: rest) stop

variable {data : Content} {start middle stop position : Nat} {block : Block} {tokens : List Token}

theorem Chain.le {blocks : List Block} (hchain : Chain data start blocks stop) :
    start ≤ stop := by
  induction hchain with
  | nil => exact Nat.le_refl _
  | cons hle _ _ _ ih => exact Nat.le_trans hle ih

theorem toList_extract (hle : start ≤ stop) :
    data.toList.take start ++ (data.extract start stop).toList = data.toList.take stop := by
  rw [Array.toList_extract, List.extract_eq_take_drop, ← List.drop_take]
  have hfront : (data.toList.take stop).take start = data.toList.take start := by
    rw [List.take_take, Nat.min_eq_left hle]
  rw [← hfront, List.take_append_drop]

theorem holds_stored_nil (data : Content) (place : Nat) : Holds data place place (.stored []) := by
  have hnone : (data.extract place place).toList = [] := by
    rw [Array.extract_empty_of_stop_le_start (Nat.le_refl place)]
  rw [← hnone]
  apply Holds.stored
  rw [Nat.sub_self]
  decide

theorem padding_congr {other : Nat} (haligned : position % 8 = other % 8) :
    padding position = padding other := by
  rw [padding, padding, haligned]

theorem bits_congr {other : Nat} (haligned : position % 8 = other % 8) (final : Bool) :
    block.bits final position = block.bits final other := by
  cases block with
  | stored bytes =>
      rw [bits, bits, padding_congr (by omega : (position + 3) % 8 = (other + 3) % 8)]
  | fixed tokens => rfl

theorem toList_spell_stored (content : Content) (bytes : Bytes) :
    (spell content (stored bytes)).toList = content.toList ++ bytes :=
  Array.toList_appendList

theorem InRange.isBlock (hrange : block.InRange) (final : Bool) (position : Nat)
    (content : Content) :
    Format.Block position final content.toList (block.bits final position)
      (block.spell content).toList := by
  cases block with
  | stored bytes =>
      rw [toList_spell_stored]
      apply Format.Block.stored
      · rw [List.length_replicate]
        exact Format.padding_lt _
      · rw [List.length_replicate]
        exact Format.aligned_padding _
      · exact hrange
  | fixed tokens =>
      rw [bits, List.append_assoc]
      exact .fixed (Token.fixed_tokens hrange content)

theorem Holds.inRange (hholds : Holds data start stop block) (hstop : stop ≤ data.size) :
    block.InRange := by
  cases hholds with
  | stored hlength =>
      rw [InRange, Array.length_toList, Array.size_extract, Nat.min_eq_left hstop]
      exact hlength
  | fixed hcover => exact hcover.inRange

theorem Holds.spell_take (hholds : Holds data start stop block) (hle : start ≤ stop) :
    (block.spell (data.toList.take start).toArray).toList = data.toList.take stop := by
  cases hholds with
  | stored hlength => rw [toList_spell_stored, toList_extract hle]
  | fixed hcover => exact hcover.spellAll_take

/-- A block that holds data is a block of the format, wherever the byte is as full. -/
theorem Holds.isBlock (hholds : Holds data start stop block)
    (hle : start ≤ stop)
    (hstop : stop ≤ data.size)
    (final : Bool) {filled : Nat}
    (haligned : position % 8 = filled % 8) :
    Format.Block position final (data.toList.take start) (block.bits final filled)
      (data.toList.take stop) := by
  have hblock := (hholds.inRange hstop).isBlock final position (data.toList.take start).toArray
  rw [hholds.spell_take hle, bits_congr haligned] at hblock
  exact hblock

theorem length_bits_stored (final : Bool) (position : Nat) (bytes : Bytes) :
    (bits final position (stored bytes)).length =
      35 + padding (position + 3) + 8 * bytes.length := by
  simp only [bits, List.length_append, List.length_cons, List.length_nil, List.length_replicate,
    Bits.length_ofNat, Bits.length_ofBytes]
  omega

theorem frugal_stored (bytes : Bytes) : Frugal bytes.length (stored bytes) := by
  intro final position
  have hpadding := Format.padding_lt (position + 3)
  rw [length_bits_stored]
  omega

theorem length_bits_fixed (final : Bool) (position : Nat) (tokens : List Token) :
    (bits final position (fixed tokens)).length = (bits false 0 (fixed tokens)).length := by
  simp only [bits, List.length_append, List.length_cons]

theorem frugal_smaller (bytes : Bytes) (tokens : List Token) :
    Frugal bytes.length (smaller bytes tokens) := by
  rw [smaller]
  split
  next hsmaller =>
    intro final position
    rw [length_bits_fixed]
    exact Nat.le_trans hsmaller (frugal_stored bytes false 0)
  · exact frugal_stored bytes

theorem Holds.smaller {bytes : Bytes}
    (hstored : Holds data start stop (.stored bytes))
    (hcover : Cover data start tokens stop) :
    Holds data start stop (smaller bytes tokens) := by
  rw [Block.smaller]
  split
  · exact .fixed hcover
  · exact hstored

theorem chain_ofGroups (storeOnly : Bool) {groups : List (List Token)}
    (hcover : Cover data start groups.flatten stop)
    (hstart : start ≤ data.size)
    (hsize : ∀ group ∈ groups, totalSize group < 2 ^ 16) :
    Chain data start (ofGroups storeOnly data start groups) stop := by
  induction groups generalizing start with
  | nil =>
      cases hcover with
      | nil => exact .nil
  | cons group rest ih =>
      rw [List.flatten_cons] at hcover
      rcases hcover.split with ⟨hgroup, hrest⟩
      have hmiddle : start + totalSize group ≤ data.size := hgroup.stop_le hstart
      have hextent : start + totalSize group - start = totalSize group :=
        Nat.add_sub_cancel_left start _
      have hstored : Holds data start (start + totalSize group)
          (.stored (data.extract start (start + totalSize group)).toList) := by
        apply Holds.stored
        rw [hextent]
        exact hsize group List.mem_cons_self
      have hlength : (data.extract start (start + totalSize group)).toList.length =
          start + totalSize group - start := by
        rw [Array.length_toList, Array.size_extract, Nat.min_eq_left hmiddle]
      have hbytes := frugal_stored (data.extract start (start + totalSize group)).toList
      have hsmaller := frugal_smaller (data.extract start (start + totalSize group)).toList group
      rw [hlength] at hbytes hsmaller
      rw [ofGroups]
      apply Chain.cons (Nat.le_add_right start _) _ _
        (ih hrest hmiddle fun group hmem => hsize group (List.mem_cons_of_mem _ hmem))
      · split
        · exact hstored
        · exact hstored.smaller hgroup
      · split
        · exact hbytes
        · exact hsmaller

theorem length_ofGroups (storeOnly : Bool) (data : Content) (start : Nat)
    (groups : List (List Token)) :
    (ofGroups storeOnly data start groups).length = groups.length := by
  induction groups generalizing start with
  | nil => rfl
  | cons group rest ih => rw [ofGroups, List.length_cons, ih, List.length_cons]

end Block

theorem Format.OpenBlocks.snoc {position : Nat} {before middle after : Bytes}
    {blocks block : List Bool}
    (hblocks : Format.OpenBlocks position before blocks middle)
    (hblock : Format.Block (position + blocks.length) false middle block after) :
    Format.OpenBlocks position before (blocks ++ block) after := by
  induction hblocks with
  | @nil position content =>
      have hlast : Format.OpenBlocks position content (block ++ []) after := .cons hblock .nil
      rw [List.append_nil] at hlast
      exact hlast
  | @cons position _ _ _ first rest hfirst _ ih =>
      rw [List.append_assoc]
      apply Format.OpenBlocks.cons hfirst
      apply ih
      rw [Nat.add_assoc, ← List.length_append]
      exact hblock

theorem Format.OpenStream.snoc {opening block : List Bool} {before after : Bytes}
    (hopening : Format.OpenStream opening before)
    (hblock : Format.Block opening.length false before block after) :
    Format.OpenStream (opening ++ block) after := by
  cases hopening with
  | @intro method flags blocks _ hheader hblocks =>
      rw [List.length_append, Bits.length_ofBytes] at hblock
      rw [List.append_assoc]
      exact .intro hheader (hblocks.snoc hblock)

end BoundedZlib
