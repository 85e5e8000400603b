import BoundedZlib.Proofs.Language
import Mathlib.Order.Bounds.Defs

/-!
# What beginnings of streams spell

Reading in full spells the content of every literal, copy and stored byte as soon as
its bits are there, and nothing else.  So how much content a beginning of a stream has
may be told without any reader, by the longest of its beginnings that ends with such an
element, and by what has been spelled when its bits are read.
-/

namespace BoundedZlib

open Inflater

namespace Format

theorem Block.exists_openBlock {position : Nat} {final : Bool} {before after : Bytes}
    {bits : List Bool} (hblock : Block position final before bits after) :
    ∃ front, front <+: bits ∧ OpenBlock position before front after := by
  cases hblock with
  | stored hpadding haligned hlength =>
      exact ⟨_, List.prefix_rfl, .stored hpadding haligned hlength (Nat.le_refl _)⟩
  | fixed htokens =>
      rcases htokens.split with ⟨front, code, htokens, hfront, _⟩
      refine ⟨[final, true, false] ++ front, ?_, .fixed hfront⟩
      rw [htokens, ← List.append_assoc]
      exact List.prefix_append _ _
  | @described _ _ _ description _ hdescribes htokens =>
      rcases htokens.split with ⟨front, code, htokens, hfront, _⟩
      refine ⟨[final, false, true] ++ description ++ front, ?_, .described hdescribes hfront⟩
      rw [htokens, ← List.append_assoc]
      exact List.prefix_append _ _

theorem OpenBlock.content_feedFully {position : Nat} {before after : Bytes} {bits : List Bool}
    (hblock : OpenBlock position before bits after) :
    ((standing .block position before).feedFully bits).content.toList = after := by
  cases hblock with
  | nil => rfl
  | @stored final _ padding length bytes hpadding haligned hlength hbytes =>
      have hopening : IsOpening position final _ _ := .stored hpadding haligned hlength
      rcases Nat.exists_eq_add_of_le hbytes with ⟨left, hleft⟩
      rw [feedFully_element (reads_block.mpr ⟨final, _, rfl, hopening⟩) hopening.ne_nil,
        accept_storing, hleft, ← List.append_nil (Bits.ofBytes bytes), feedFully_stored]
      rfl
  | @fixed final _ _ tokens htokens =>
      have hopening : IsOpening position final _ _ := .fixed
      rw [feedFully_element (reads_block.mpr ⟨final, _, rfl, hopening⟩) hopening.ne_nil,
        accept_coded, ← List.append_nil tokens, feedFully_openTokens fixed_decode htokens]
      rfl
  | @described final _ _ literals distances description tokens hdescribes htokens =>
      rcases hdescribes.exists_codes with ⟨codes, hcodes⟩
      have hopening : IsOpening position final _ _ := .described hdescribes hcodes
      rw [feedFully_element (reads_block.mpr ⟨final, _, rfl, hopening⟩) hopening.ne_nil,
        accept_coded, ← List.append_nil tokens,
        feedFully_openTokens (decode_of_describes hdescribes hcodes) htokens]
      rfl

theorem Spells.content_after {bits : List Bool} {content : Bytes} (hspells : Spells bits content) :
    (after bits).content.toList = content := by
  cases hspells with
  | nil => rfl
  | block hopening hfront => rw [after_openStream hopening, hfront.content_feedFully]

/-- All that is spelled is spelled by bits up to the end of an element. -/
theorem exists_spells (bits : List Bool) :
    ∃ front, front <+: bits ∧ Spells front (after bits).content.toList := by
  rcases stream_or_open bits with
    ⟨opening, last, back, before, content, hbits, hopening, hlast⟩ |
      ⟨front, content, hfront, hspells, hpending⟩
  · have hcontent : (after bits).content.toList = content := by
      rw [hbits, List.append_assoc, after_openStream hopening, feedFully_block hlast,
        Place.afterBlock, if_pos rfl]
      exact (feedFully_trailer _ _ _).left
    rcases hlast.exists_openBlock with ⟨front, hfront, hblock⟩
    refine ⟨opening ++ front, ?_, ?_⟩
    · rw [hbits, List.append_assoc]
      exact (List.prefix_append_right_inj _).mpr (hfront.trans (List.prefix_append _ _))
    · rw [hcontent]
      exact .block hopening hblock
  · rw [hpending.content_eq]
    exact ⟨front, hfront, hspells⟩

theorem isGreatest_covers {bits : List Bool} {content : Bytes}
    (hcontent : (after bits).content.toList <+: content) :
    IsGreatest { count | Covers bits content count } (after bits).content.size := by
  constructor
  · have htake := List.prefix_iff_eq_take.mp hcontent
    refine ⟨hcontent.length_le, ?_⟩
    rw [← Array.length_toList, ← htake]
    exact exists_spells bits
  · intro count hcovers
    rcases hcovers with ⟨hcount, front, ⟨back, hbits⟩, hspells⟩
    have hfront := prefix_feedFully (after front) back
    rw [← after_append, hbits, hspells.content_after] at hfront
    have hle := hfront.length_le
    rw [List.length_take, Nat.min_eq_left hcount] at hle
    exact hle

end Format
end BoundedZlib
