import BoundedZlib.Deflate.Codes
import BoundedZlib.Proofs.CanonicalCodes

/-!
# Reading tokens

What the reader of tokens reads in the codes of a block, in terms of the format:
which bits stand for a literal, for a copy and for the end of the block, and
which bytes a copy adds.
-/

namespace BoundedZlib

/-!
## Copies
-/

namespace Content

variable {content : Content} {length distance : Nat}

theorem toList_push (content : Content) (byte : UInt8) :
    Array.toList (content.push byte) = content.toList ++ [byte] :=
  Array.toList_push

theorem getElem?_back (content : Content) (distance : Nat) (hpos : 0 < distance) :
    some (content.back distance) =
      if distance ≤ content.size then content.toList[content.size - distance]? else some 0 := by
  rw [back]
  split
  · rename_i hle
    have hlt : content.size - distance < content.size := by omega
    rw [Array.getD_eq_getD_getElem?, Array.getElem?_toList, Array.getElem?_eq_getElem hlt,
      Option.getD_some]
  · rfl

theorem toList_prefix_copy (content : Content) (length distance : Nat) :
    content.toList <+: (content.copy length distance).toList := by
  induction length generalizing content with
  | zero => exact List.prefix_rfl
  | succ length ih =>
      rw [copy]
      apply List.IsPrefix.trans _ (ih _)
      rw [toList_push]
      exact List.prefix_append _ _

theorem repeats_copy (content : Content) (length distance : Nat) (hpos : 0 < distance) :
    Format.Repeats length distance content.toList (content.copy length distance).toList := by
  refine ⟨toList_prefix_copy content length distance, by simp, ?_⟩
  induction length generalizing content with
  | zero =>
      intro i hle hlt
      simp only [copy] at hlt
      omega
  | succ length ih =>
      intro i hle hlt
      rw [copy] at hlt ⊢
      rcases Nat.lt_or_eq_of_le hle with hnext | hfirst
      · apply ih _ i _ hlt
        rw [toList_push, List.length_append]
        exact hnext
      · -- The first byte added is followed by the others and does not change.
        subst hfirst
        have hprefix := toList_prefix_copy (content.push (content.back distance)) length distance
        rw [toList_push] at hprefix
        rcases hprefix with ⟨rest, hrest⟩
        have hback := getElem?_back content distance hpos
        rw [← Array.length_toList] at hback
        rw [← hrest]
        simp only [List.append_assoc, List.getElem?_append_right (Nat.le_refl _), Nat.sub_self]
        rw [List.singleton_append, List.getElem?_cons_zero, hback]
        split
        · rw [List.getElem?_append_left (by omega)]
        · rfl

end Content

namespace Format

/-- A copy adds the same bytes however it is made. -/
theorem Repeats.unique {length distance : Nat} {before after other : Bytes}
    (hpos : 0 < distance)
    (hafter : Repeats length distance before after)
    (hother : Repeats length distance before other) :
    after = other := by
  rcases hafter with ⟨⟨added, hadded⟩, hlength, hbytes⟩
  rcases hother with ⟨⟨added', hadded'⟩, hlength', hbytes'⟩
  have hsame : ∀ i : Nat, after[i]? = other[i]? := by
    intro i
    induction i using Nat.strongRecOn with
    | ind i ih =>
        by_cases hbefore : i < before.length
        · rw [← hadded, ← hadded', List.getElem?_append_left hbefore,
            List.getElem?_append_left hbefore]
        · by_cases hlt : i < before.length + length
          · rw [hbytes i (by omega) (by omega), hbytes' i (by omega) (by omega)]
            split
            · exact ih (i - distance) (by omega)
            · rfl
          · rw [List.getElem?_eq_none (by omega), List.getElem?_eq_none (by omega)]
  exact List.ext_getElem? hsame

theorem repeats_iff {length distance : Nat} {content : Content} {after : Bytes}
    (hpos : 0 < distance) :
    Repeats length distance content.toList after ↔
      (content.copy length distance).toList = after := by
  constructor
  · intro hrepeats
    exact (Content.repeats_copy content length distance hpos).unique hpos hrepeats
  · intro hcopy
    rw [← hcopy]
    exact Content.repeats_copy content length distance hpos

/-!
## Values with extra bits
-/

theorem lengths_eq :
    ValueRange.lengths =
      (List.range 29).map fun index => ⟨lengthBase index, lengthExtra index⟩ := by
  decide

theorem distances_eq :
    ValueRange.distances =
      (List.range 30).map fun index => ⟨distanceBase index, distanceExtra index⟩ := by
  decide

theorem reads_value {ranges : List ValueRange} {count : Nat} {base extra : Nat → Nat}
    (hranges : ranges = (List.range count).map fun index => ⟨base index, extra index⟩)
    {index value : Nat} {bits : List Bool} :
    (ValueRange.reader ranges index).Reads bits value ↔
      IsValue count base extra index bits value := by
  simp only [ValueRange.reader, BitReader.bind_eq_bind, BitReader.pure_eq_done,
    BitReader.reads_bind, BitReader.reads_ofOption, BitReader.reads_nat_iff, BitReader.reads_done,
    hranges, List.getElem?_map, Option.map_eq_some_iff, List.getElem?_eq_some_iff,
    List.getElem_range, List.length_range, IsValue]
  constructor
  · intro h
    rcases h with ⟨_, _, range, hbits, ⟨hnil, _, ⟨hplace, hindex⟩, hrange⟩, front, back, more,
      hback, ⟨hlength, hmore⟩, hnil', hvalue⟩
    subst hnil hnil' hback hbits hmore hvalue hindex hrange
    rw [List.nil_append, List.append_nil]
    exact ⟨hplace, hlength, rfl⟩
  · intro h
    rcases h with ⟨hlt, hlength, hvalue⟩
    exact ⟨[], bits, _, rfl, ⟨rfl, index, ⟨hlt, rfl⟩, rfl⟩, bits, [], Bits.toNat bits, by simp,
      ⟨hlength, rfl⟩, rfl, hvalue.symm⟩

theorem reads_length {index length : Nat} {bits : List Bool} :
    (ValueRange.reader ValueRange.lengths index).Reads bits length ↔
      IsLength index bits length :=
  reads_value lengths_eq

theorem reads_distance {index distance : Nat} {bits : List Bool} :
    (ValueRange.reader ValueRange.distances index).Reads bits distance ↔
      IsDistance index bits distance :=
  reads_value distances_eq

theorem IsDistance.pos {index distance : Nat} {more : List Bool}
    (hdistance : IsDistance index more distance) :
    0 < distance := by
  rcases hdistance with ⟨_, _, hvalue⟩
  have hbase : 0 < distanceBase index := by
    rw [distanceBase]
    split
    · exact Nat.succ_pos index
    · exact Nat.succ_pos _
  omega

/-!
## Tokens
-/

/-- The bits of one token, or of the end of a block. -/
inductive IsToken (literals distances : List Nat) : List Bool → Option Token → Prop where
  | stop {code : List Bool}
      (hcode : IsCode literals 256 code) :
      IsToken literals distances code none
  | literal {byte : UInt8} {code : List Bool}
      (hcode : IsCode literals byte.toNat code) :
      IsToken literals distances code (some (.literal byte))
  | copy {lengthIndex distanceIndex length distance : Nat}
      {lengthCode lengthMore distanceCode distanceMore : List Bool}
      (hlengthCode : IsCode literals (257 + lengthIndex) lengthCode)
      (hlength : IsLength lengthIndex lengthMore length)
      (hdistanceCode : IsCode distances distanceIndex distanceCode)
      (hdistance : IsDistance distanceIndex distanceMore distance) :
      IsToken literals distances (lengthCode ++ lengthMore ++ distanceCode ++ distanceMore)
        (some (.copy length distance))

theorem IsToken.ne_nil {literals distances : List Nat} {bits : List Bool} {token? : Option Token}
    (htoken : IsToken literals distances bits token?) :
    bits ≠ [] := by
  cases htoken with
  | stop hcode => exact List.ne_nil_of_length_pos hcode.left
  | literal hcode => exact List.ne_nil_of_length_pos hcode.left
  | copy hlengthCode _ _ _ =>
      have hne := List.ne_nil_of_length_pos hlengthCode.left
      simp [hne]

variable {codes : Codes} {literals distances : List Nat}

theorem reads_tokenReader
    (hliterals : codes.literals.Decodes literals)
    (hdistances : codes.distances.Decodes distances)
    {bits : List Bool} {token? : Option Token} :
    (∃ parts, codes.tokenReader.Reads bits (token?, parts)) ↔
      IsToken literals distances bits token? := by
  have hend : Codes.endOfBlock = 256 := rfl
  simp only [Codes.tokenReader, BitReader.bind_eq_bind, BitReader.pure_eq_done,
    BitReader.reads_measured_bind, BitReader.reads_ite, BitReader.reads_done, Prod.mk.injEq]
  constructor
  · intro h
    rcases h with ⟨parts, code, rest, symbol, hbits, hcode, hrest⟩
    have hcode' := (hliterals _ _).mp hcode
    rcases hrest with ⟨hlt, hnil, htoken, _⟩ | ⟨hge, ⟨heq, hnil, htoken, _⟩ | ⟨hne, hrest⟩⟩
    · subst hnil htoken hbits
      rw [List.append_nil]
      apply IsToken.literal
      rw [UInt8.toNat_ofNat', Nat.mod_eq_of_lt (by omega)]
      exact hcode'
    · subst hnil htoken hbits heq
      rw [List.append_nil]
      exact IsToken.stop hcode'
    · rcases hrest with ⟨lengthMore, rest', length, hrest, hlength, distanceCode, rest'', index,
        hrest', hdistanceCode, distanceMore, rest''', distance, hrest'', hdistance, hnil, htoken, _⟩
      subst hnil htoken hrest'' hrest' hrest hbits
      generalize hindex : symbol - (Codes.endOfBlock + 1) = lengthIndex at hlength
      have hsymbol : symbol = 257 + lengthIndex := by omega
      rw [hsymbol] at hcode'
      have htoken := IsToken.copy hcode' (reads_length.mp hlength)
        ((hdistances _ _).mp hdistanceCode) (reads_distance.mp hdistance)
      simpa using htoken
  · intro h
    cases h with
    | stop hcode =>
        rw [← hend] at hcode
        refine ⟨[⟨bits.length, 0⟩], bits, [], Codes.endOfBlock, by simp,
          (hliterals _ _).mpr hcode, ?_⟩
        exact Or.inr ⟨Nat.lt_irrefl _, Or.inl ⟨rfl, rfl, rfl, rfl⟩⟩
    | @literal byte _ hcode =>
        refine ⟨[⟨bits.length, 0⟩], bits, [], byte.toNat, by simp, (hliterals _ _).mpr hcode, ?_⟩
        exact Or.inl ⟨byte.toNat_lt, rfl, by rw [UInt8.ofNat_toNat], rfl⟩
    | @copy lengthIndex distanceIndex length distance lengthCode lengthMore distanceCode
        distanceMore hlengthCode hlength hdistanceCode hdistance =>
        refine ⟨[⟨lengthCode.length, lengthMore.length⟩,
            ⟨distanceCode.length, distanceMore.length⟩],
          lengthCode, lengthMore ++ (distanceCode ++ distanceMore), 257 + lengthIndex,
          by simp, (hliterals _ _).mpr hlengthCode, ?_⟩
        apply Or.inr
        refine ⟨by omega, Or.inr ⟨by omega, ?_⟩⟩
        rw [show 257 + lengthIndex - (Codes.endOfBlock + 1) = lengthIndex by omega]
        exact ⟨lengthMore, distanceCode ++ distanceMore, length, rfl,
          reads_length.mpr hlength, distanceCode, distanceMore, distanceIndex, rfl,
          (hdistances _ _).mpr hdistanceCode, distanceMore, [], distance, by simp,
          reads_distance.mpr hdistance, rfl, rfl, rfl⟩

end Format
end BoundedZlib
