import BoundedZlib.Proofs.WritingBlocks

/-!
# Streams assembled from blocks

Blocks that were not made for any data can be written as well, as long as their tokens
have codes and their bytes can be counted.  Written one after the other, with a header
in front and a checksum behind, they are a stream of what they spell.
-/

namespace BoundedZlib

/-!
## Copies
-/

theorem Content.toList_copy {content : Content} {front again between : Bytes}
    {length distance : Nat}
    (hcontent : content.toList = front ++ (again ++ between))
    (hlength : again.length = length)
    (hdistance : length + between.length = distance)
    (hpos : 0 < distance) :
    (content.copy length distance).toList = content.toList ++ again := by
  refine (Format.repeats_iff hpos).mp ⟨List.prefix_append _ _, ?_, ?_⟩
  · rw [List.length_append, hlength]
  · intro i hle hlt
    rcases Nat.exists_eq_add_of_le hle with ⟨j, hj⟩
    rw [List.length_append, hj] at hlt
    have hsize : content.toList.length = front.length + (again.length + between.length) := by
      rw [hcontent, List.length_append, List.length_append]
    have hplace : i - distance = front.length + j := by omega
    rw [if_pos (by omega), hplace, hj, List.getElem?_append_right (Nat.le_add_right _ _),
      Nat.add_sub_cancel_left, List.getElem?_append_left (by omega), hcontent,
      List.getElem?_append_right (Nat.le_add_right _ _), Nat.add_sub_cancel_left,
      List.getElem?_append_left (by omega)]

/-!
## Blocks
-/

namespace Block

def spellAll (content : Content) (blocks : List Block) : Content :=
  blocks.foldl spell content

def bitsAll : (position : Nat) → List Block → List Bool
  | _, [] => []
  | position, block :: rest =>
      block.bits false position ++ bitsAll (position + (block.bits false position).length) rest

section Blocks

variable {blocks : List Block}

theorem spellAll_append (content : Content) (front back : List Block) :
    spellAll content (front ++ back) = spellAll (spellAll content front) back :=
  List.foldl_append

theorem spell_spellAll (content : Content) (blocks : List Block) (last : Block) :
    spell (spellAll content blocks) last = spellAll content (blocks ++ [last]) :=
  (spellAll_append content blocks [last]).symm

theorem toList_spellAll_stored (content : Content) (pieces : List Bytes) :
    (spellAll content (pieces.map stored)).toList = content.toList ++ pieces.flatten := by
  induction pieces generalizing content with
  | nil => exact (List.append_nil _).symm
  | cons piece rest ih =>
      have hrest := ih (spell content (stored piece))
      rw [toList_spell_stored, List.append_assoc] at hrest
      exact hrest

theorem toList_spellAll_copied (content : Content) {bytes : Bytes} {length : Nat}
    (hlength : bytes.length = length) (hpos : 0 < length) :
    (spellAll content [stored bytes, fixed [.copy length length]]).toList =
      content.toList ++ (bytes ++ bytes) := by
  have hstored := toList_spell_stored content bytes
  have hsplit := hstored.trans (congrArg (content.toList ++ ·) (List.append_nil bytes).symm)
  rw [← List.append_assoc, ← hstored]
  exact Content.toList_copy hsplit hlength rfl hpos

theorem toList_spellAll_halves (content : Content) {bytes front back : Bytes}
    {length distance : Nat}
    (hbytes : bytes = front ++ back)
    (hfront : front.length = length) (hback : back.length = length)
    (hdistance : length + length = distance) (hpos : 0 < distance) :
    (spellAll content
        [stored bytes, fixed [.copy length distance, .copy length distance]]).toList =
      content.toList ++ (bytes ++ bytes) := by
  have hstored := toList_spell_stored content bytes
  rw [hbytes] at hstored
  have hhalf := Content.toList_copy hstored hfront (by rw [hback, hdistance]) hpos
  rw [hstored, List.append_assoc, List.append_assoc, ← List.append_assoc content.toList] at hhalf
  have hwhole := Content.toList_copy hhalf hback (by rw [hfront, hdistance]) hpos
  rw [hhalf] at hwhole
  rw [hbytes]
  refine hwhole.trans ?_
  simp only [List.append_assoc]

theorem toList_spellAll_repeated (content : Content) {bytes rest : Bytes} {first : UInt8}
    {length distance : Nat}
    (hbytes : bytes = first :: rest)
    (hrest : rest.length = length) (hdistance : length + 1 = distance) :
    (spellAll content [stored bytes, fixed [.literal first, .copy length distance]]).toList =
      content.toList ++ (bytes ++ bytes) := by
  subst hbytes
  have hstored := toList_spell_stored content (first :: rest)
  have hpushed : ((spell content (stored (first :: rest))).push first).toList =
      (content.toList ++ [first]) ++ (rest ++ [first]) := by
    rw [Array.toList_push, hstored]
    simp only [List.append_assoc, List.cons_append, List.nil_append]
  have hwhole := Content.toList_copy hpushed hrest hdistance (hdistance ▸ Nat.succ_pos length)
  rw [hpushed] at hwhole
  refine hwhole.trans ?_
  simp only [List.append_assoc, List.cons_append, List.nil_append]

theorem openBlocks_bitsAll (hrange : ∀ block ∈ blocks, block.InRange) (position : Nat)
    (content : Content) :
    Format.OpenBlocks position content.toList (bitsAll position blocks)
      (spellAll content blocks).toList := by
  induction blocks generalizing position content with
  | nil => exact .nil
  | cons block rest ih =>
      exact .cons ((hrange block List.mem_cons_self).isBlock false position content)
        (ih (fun other hmem => hrange other (List.mem_cons_of_mem _ hmem)) _ _)

end Blocks

end Block

/-!
## Streams
-/

namespace Format

theorem stream_of_blocks {blocks : List BoundedZlib.Block} {last : BoundedZlib.Block}
    {method flags : UInt8} {opening closing : List Bool} {stream content : Bytes}
    (hheader : IsHeader method flags)
    (hblocks : ∀ block ∈ blocks, block.InRange)
    (hlast : last.InRange)
    (hcontent : (last.spell (Block.spellAll #[] blocks)).toList = content)
    (hopening : opening = Bits.ofBytes [method, flags] ++ Block.bitsAll 16 blocks)
    (hclosing : closing = last.bits true opening.length)
    (hstream : Bits.ofBytes stream =
      opening ++ closing ++
        List.replicate (padding (opening.length + closing.length)) false ++
        Bits.ofBytes (ByteOrder.big.encode 4 (checksum content))) :
    Stream stream content := by
  have hopened := OpenStream.intro hheader (Block.openBlocks_bitsAll hblocks 16 #[])
  have hclosed := hlast.isBlock true opening.length (Block.spellAll #[] blocks)
  rw [← hopening] at hopened
  rw [← hclosing, hcontent] at hclosed
  refine .intro hopened hclosed ?_ ?_ hstream
  · rw [List.length_replicate]
    exact padding_lt _
  · rw [List.length_replicate]
    exact aligned_padding _

end Format

end BoundedZlib
