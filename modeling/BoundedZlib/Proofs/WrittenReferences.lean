import BoundedZlib.Proofs.RoundTrip
import BoundedZlib.Proofs.StrictReading

/-!
# The references that deflating writes

A copy is taken only of what was written before it, so no back-reference of a stream
that the encoder writes reaches before the first byte of content.
-/

namespace BoundedZlib

namespace Inflater

/-!
## Elements
-/

section Elements

variable (place : Place) (position : Nat) (content : Bytes)

/-- An element that is read refers to what it tells, and nothing else does while it is read. -/
theorem staysWithin_of_reads {reader : BitReader (Element × List Part)} {front : List Bool}
    {read : Element × List Part}
    (hreads : reader.Reads front read)
    (hwithin : ∀ reference ∈ read.1.references content.length, reference.IsWithin) :
    (midst reader place position content).StaysWithin front := by
  induction hreads generalizing position with
  | done => exact staysWithin_nil _
  | @bit next b rest value hrest ih =>
      rw [staysWithin_cons]
      cases hnext : next b with
      | done value' =>
          rw [hnext, BitReader.reads_done] at hrest
          rcases hrest with ⟨rfl, rfl⟩
          have hcomplete : ((midst (.bit next) place position content).feed b).2 = some value' := by
            simp only [feed, midst, BitReader.feed, hnext]
          rw [hcomplete]
          exact ⟨hwithin, staysWithin_nil _⟩
      | bit next' =>
          have hcomplete : ((midst (.bit next) place position content).feed b).2 = none := by
            simp only [feed, midst, BitReader.feed, hnext]
          rw [hcomplete, feed_bit place position content hnext, settleFully_midst, ← hnext]
          refine ⟨?_, ih (position + 1) hwithin⟩
          intro reference hmem
          cases hmem
      | reject =>
          rw [hnext] at hrest
          exact absurd hrest BitReader.not_reads_reject

variable {place position content}

theorem staysWithin_element {front : List Bool} {element : Element}
    (hreads : ∃ parts, (place.reader position).Reads front (element, parts))
    (hwithin : ∀ reference ∈ element.references content.length, reference.IsWithin) :
    (standing place position content).StaysWithin front := by
  rcases hreads with ⟨parts, hreads⟩
  exact staysWithin_of_reads place position content hreads hwithin

theorem StaysWithin.element {front back : List Bool} {element : Element}
    (hreads : ∃ parts, (place.reader position).Reads front (element, parts))
    (hne : front ≠ [])
    (hwithin : ∀ reference ∈ element.references content.length, reference.IsWithin)
    (hback : ((standing place (position + front.length) content).accept
      element).settleFully.StaysWithin back) :
    (standing place position content).StaysWithin (front ++ back) := by
  have hfeed := @feedFully_element place position content front element hreads hne []
  rw [List.append_nil, feedFully_nil] at hfeed
  rw [staysWithin_append, hfeed]
  exact ⟨staysWithin_element hreads hwithin, hback⟩

end Elements

/-!
## Blocks that the encoder writes
-/

theorem staysWithin_stored (bytes before : Bytes) (final : Bool) (position : Nat) :
    (standing (.storing final bytes.length) position before).StaysWithin (Bits.ofBytes bytes) := by
  induction bytes generalizing position before with
  | nil => exact staysWithin_nil _
  | cons byte rest ih =>
      have hne : Bits.ofByte byte ≠ [] := List.ne_nil_of_length_pos (by simp)
      rw [Bits.ofBytes_cons, List.length_cons, Place.storing]
      apply StaysWithin.element (reads_stored.mpr ⟨byte, rfl, rfl⟩) hne (List.forall_mem_nil _)
      rw [accept_byte]
      exact ih _ _

theorem staysWithin_fixed {data : Content} {start stop : Nat} {tokens : List Token}
    (hcover : Token.Cover data start tokens stop) (final : Bool) (position : Nat) :
    (standing (.coded final .fixed) position (data.toList.take start)).StaysWithin
      (tokens.flatMap Codes.fixedToken ++ Codes.fixedLiteral Codes.endOfBlock) := by
  induction hcover generalizing position with
  | nil =>
      have hstop : Format.IsToken Format.fixedLiterals Format.fixedDistances
          (Codes.fixedLiteral Codes.endOfBlock) none :=
        .stop (Format.isCode_fixedLiteral (by decide))
      exact staysWithin_element ((reads_coded Format.fixed_decode).mpr ⟨_, rfl, hstop⟩)
        (List.forall_mem_nil _)
  | @cons place stop token rest htoken _ ih =>
      have hreads : ∃ parts, (Place.reader position (.coded final .fixed)).Reads
          (Codes.fixedToken token) (.token? (some token), parts) :=
        (reads_coded Format.fixed_decode).mpr ⟨_, rfl, htoken.inRange.isToken⟩
      rw [List.flatMap_cons, List.append_assoc]
      apply StaysWithin.element hreads htoken.inRange.isToken.ne_nil
      · cases htoken with
        | literal => exact List.forall_mem_nil _
        | copy _ _ hback hplace =>
            rw [length_take_toList (Nat.le_of_add_right_le hplace)]
            exact List.forall_mem_singleton.mpr hback
      · rw [accept_token _ _ _ _ _ _ htoken.spell_take]
        exact ih _

theorem staysWithin_block {data : Content} {start stop : Nat} {block : Block}
    (hholds : Block.Holds data start stop block) (final : Bool) {position filled : Nat}
    (haligned : position % 8 = filled % 8) :
    (standing .block position (data.toList.take start)).StaysWithin
      (block.bits final filled) := by
  cases hholds with
  | stored hlength =>
      have hsize : (data.extract start stop).toList.length < 2 ^ 16 := by
        rw [Array.length_toList, Array.size_extract]
        omega
      have hsame : (position + 3) % 8 = (filled + 3) % 8 := by omega
      have hpadding : (List.replicate (padding (filled + 3)) false).length < 8 := by
        rw [List.length_replicate]
        exact Format.padding_lt _
      have hfull : (position + 3 + (List.replicate (padding (filled + 3)) false).length) % 8 =
          0 := by
        rw [List.length_replicate, ← Block.padding_congr hsame]
        exact Format.aligned_padding _
      have hopening : Format.IsOpening position final _ _ := .stored hpadding hfull hsize
      apply StaysWithin.element (reads_block.mpr ⟨final, _, rfl, hopening⟩) hopening.ne_nil
        (List.forall_mem_nil _)
      rw [accept_storing]
      exact staysWithin_stored _ _ _ _
  | @fixed tokens hcover =>
      have hopening : Format.IsOpening position final [final, true, false] _ := .fixed
      rw [Block.bits, List.append_assoc]
      apply StaysWithin.element (reads_block.mpr ⟨final, _, rfl, hopening⟩) hopening.ne_nil
        (List.forall_mem_nil _)
      rw [accept_coded]
      exact staysWithin_fixed hcover final _

end Inflater

/-!
## Streams that the encoder writes
-/

namespace Encoder

open Inflater

variable {session : Encoder} {delivered : Bytes}

/-- The bits are a stream that is not ended, and no reference in them is from before the start. -/
structure RefersWithin (bits : List Bool) (content : Bytes) : Prop where
  stream : Format.OpenStream bits content
  within : (Inflater.initial false).StaysWithin bits

theorem RefersWithin.append {bits more : List Bool} {content : Bytes}
    (hwithin : RefersWithin bits content)
    (hmore : (standing .block bits.length content).StaysWithin more) :
    (Inflater.initial false).StaysWithin (bits ++ more) := by
  have hafter := after_openStream hwithin.stream []
  rw [List.append_nil, feedFully_nil, after] at hafter
  rw [staysWithin_append, hafter]
  exact ⟨hwithin.within, hmore⟩

theorem refersWithin_header (level : Level) :
    RefersWithin ((Encoder.initial level).openStream.written []) [] where
  stream := (opened_openStream level).stream
  within := by
    rcases isHeader_header level with ⟨method, flags, hheader, hvalid⟩
    rw [written_openStream_initial, hheader, initial_eq_standing]
    exact staysWithin_element (reads_start.mpr ⟨rfl, method, flags, hvalid, rfl⟩)
      (List.forall_mem_nil _)

theorem refersWithin_foldl {data : Content} {start stop : Nat} {blocks : List Block}
    (hchain : Block.Chain data start blocks stop)
    (hstop : stop ≤ data.size)
    (hwithin : RefersWithin (session.written delivered) (data.toList.take start)) :
    RefersWithin ((blocks.foldl (putBlock false) session).written delivered)
      (data.toList.take stop) := by
  induction hchain generalizing session with
  | nil => exact hwithin
  | @cons start middle stop block rest hle hholds _ hrest ih =>
      have haligned := session.aligned_pending delivered
      apply ih hstop
      rw [putBlock, written_put]
      constructor
      · exact hwithin.stream.snoc
          (hholds.isBlock hle (Nat.le_trans hrest.le hstop) false haligned)
      · exact hwithin.append (staysWithin_block hholds false haligned)

theorem staysWithin_closeStream {data : Content} {place : Nat}
    (hwithin : RefersWithin (session.written delivered) (data.toList.take place))
    (hplace : place ≤ data.size) :
    (Inflater.initial false).StaysWithin (session.closeStream.written delivered) := by
  have haligned := session.aligned_pending delivered
  have hholds : Block.Holds data place place (.fixed []) := .fixed .nil
  have hblock := hholds.isBlock (Nat.le_refl place) hplace true haligned
  have hten : ((Block.fixed []).bits true session.pending.length).length = 10 := rfl
  rw [written_closeStream, List.append_assoc, List.append_assoc]
  apply hwithin.append
  have hfeed := feedFully_block hblock []
  rw [List.append_nil, feedFully_nil, Place.afterBlock, if_pos rfl, hten] at hfeed
  rw [staysWithin_append, hfeed]
  refine ⟨staysWithin_block hholds true haligned, ?_⟩
  have hfour := ByteOrder.length_encode .big 4 session.sums.value
  generalize ByteOrder.big.encode 4 session.sums.value = sum at hfour
  have hreads : ∃ parts, (Place.reader ((session.written delivered).length + 10) .trailer).Reads
      (List.replicate (padding ((session.written delivered).length + 10)) false ++
        Bits.ofBytes sum) (.checksum (ByteOrder.big.decode sum), parts) :=
    reads_trailer.mpr ⟨_, sum, rfl, List.length_replicate, hfour, rfl⟩
  exact staysWithin_element hreads (List.forall_mem_nil _)

/-- No reference in what one step that asks to finish writes is from before the start. -/
theorem staysWithin_finish (level : Level) (input : Bytes) :
    (Inflater.initial false).StaysWithin
      (Bits.ofBytes ((Encoder.initial level).extend input .finish).queue) := by
  have hopened := (opened_openStream level).absorb input
  generalize hsession : (Encoder.initial level).openStream.absorb input = session at hopened
  have hheader : RefersWithin (session.written [])
      (session.content.toList.take session.spelled) := by
    rw [← hsession]
    exact refersWithin_header level
  rcases hopened.readyTo .finish with ⟨hle, hstop⟩
  rw [← hopened.size_content] at hstop
  rcases spellTo_eq session hle hstop with ⟨blocks, seen, hchain, _, heq⟩
  have hspelled : RefersWithin ((session.spellTo (session.readyTo .finish)).written [])
      (session.content.toList.take (session.readyTo .finish)) := by
    rw [heq]
    exact refersWithin_foldl hchain hstop hheader
  have hclosed := staysWithin_closeStream hspelled hstop
  rw [written, List.nil_append, staysWithin_append] at hclosed
  rw [extend_eq _ (fun h => Flush.noConfusion h.left), hsession]
  exact hclosed.left

end Encoder

end BoundedZlib
