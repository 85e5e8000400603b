import BoundedZlib.Encoder
import BoundedZlib.Proofs.ReadingFrames
import BoundedZlib.Proofs.WritingBlocks

/-!
# Sessions of an encoder

What a session has written is at any time the header and blocks of a stream that
is not ended, for as much of its input as is written, and once it is closed it
is a stream for all of its input.  This holds for the bits whether they are
delivered, wait in the queue, or do not yet fill a byte.
-/

namespace BoundedZlib
namespace Encoder

variable {session : Encoder} {delivered input : Bytes}

/-!
## Writing
-/

def written (session : Encoder) (delivered : Bytes) : List Bool :=
  Bits.ofBytes (delivered ++ session.queue) ++ session.pending

theorem length_written (session : Encoder) (delivered : Bytes) :
    (session.written delivered).length =
      8 * (delivered.length + session.queue.length) + session.pending.length := by
  rw [written, List.length_append, Bits.length_ofBytes, List.length_append]

theorem written_put (session : Encoder) (delivered : Bytes) (bits : List Bool) :
    (session.put bits).written delivered = session.written delivered ++ bits := by
  have hpack := Bits.ofBytes_pack (session.pending ++ bits)
  show Bits.ofBytes (delivered ++ (session.queue ++ (Bits.pack (session.pending ++ bits)).1)) ++
    (Bits.pack (session.pending ++ bits)).2 = _
  rw [← List.append_assoc, Bits.ofBytes_append, List.append_assoc, hpack, ← List.append_assoc,
    written]

theorem pending_put_lt (session : Encoder) (bits : List Bool) :
    (session.put bits).pending.length < 8 :=
  Bits.length_packInto_lt #[] (session.pending ++ bits)

theorem aligned_pending (session : Encoder) (delivered : Bytes) :
    (session.written delivered).length % 8 = session.pending.length % 8 := by
  rw [length_written]
  omega

/-- The sessions differ only in what is written. -/
def Writes (before after : Encoder) : Prop :=
  after = { before with queue := after.queue, pending := after.pending }

theorem put_writes (session : Encoder) (bits : List Bool) : session.Writes (session.put bits) :=
  rfl

theorem Writes.trans {first second third : Encoder} (hfirst : first.Writes second)
    (hsecond : second.Writes third) :
    first.Writes third := by
  rw [Writes, hfirst] at hsecond
  exact hsecond

/-- Writing blocks that hold data takes a stream that is not ended to the end of that data. -/
theorem foldl_putBlock {data : Content} {start stop : Nat} {blocks : List Block}
    (hchain : Block.Chain data start blocks stop)
    (hstop : stop ≤ data.size)
    (hpending : session.pending.length < 8)
    (hstream : Format.OpenStream (session.written delivered) (data.toList.take start))
    {after : Encoder}
    (hafter : blocks.foldl (putBlock false) session = after) :
    session.Writes after ∧ after.pending.length < 8 ∧
      Format.OpenStream (after.written delivered) (data.toList.take stop) ∧
      session.written delivered <+: after.written delivered ∧
      (after.written delivered).length ≤
        (session.written delivered).length + (42 * blocks.length + 8 * (stop - start)) := by
  induction hchain generalizing session with
  | nil =>
      rw [← hafter]
      exact ⟨rfl, hpending, hstream, List.prefix_rfl, Nat.le_add_right _ _⟩
  | @cons start middle stop block rest hle hholds hfrugal hrest ih =>
      have hmiddle := hrest.le
      have hblock := hholds.isBlock hle (Nat.le_trans hmiddle hstop) false
        (session.aligned_pending delivered)
      have hnext := hstream.snoc hblock
      rw [← written_put] at hnext
      rcases ih hstop (session.pending_put_lt _) hnext hafter with
        ⟨hwrites, hpending', hstream', hkept, hlength⟩
      rw [written_put] at hkept hlength
      have hbits := hfrugal false session.pending.length
      refine ⟨(session.put_writes _).trans hwrites, hpending', hstream',
        (List.prefix_append _ _).trans hkept, ?_⟩
      rw [List.length_append] at hlength
      rw [List.length_cons]
      omega

/-!
## Sessions that are not closed
-/

/-- The session has written the header and blocks for as much of the input as is written. -/
structure Opened (level : Level) (session : Encoder) (delivered input : Bytes) : Prop where
  level_eq : session.level = level
  content_eq : session.content.toList = input
  sums_eq : session.sums = Adler.ofBytes input
  totalOut_eq : session.totalOut = delivered.length
  spelled_le : session.spelled ≤ input.length
  pending_lt : session.pending.length < 8
  opened : session.opened = true
  closed : session.closed = false
  header : Bits.ofBytes (header level) <+: session.written delivered
  stream : Format.OpenStream (session.written delivered) (input.take session.spelled)

theorem isHeader_header (level : Level) :
    ∃ method flags, header level = [method, flags] ∧ Format.IsHeader method flags := by
  unfold header
  split
  · exact ⟨_, _, rfl, by decide, by decide, by decide, by decide⟩
  · split
    · exact ⟨_, _, rfl, by decide, by decide, by decide, by decide⟩
    · split
      · exact ⟨_, _, rfl, by decide, by decide, by decide, by decide⟩
      · exact ⟨_, _, rfl, by decide, by decide, by decide, by decide⟩

theorem written_openStream_initial (level : Level) :
    ((initial level).openStream).written [] = Bits.ofBytes (header level) := by
  have hwritten := written_put (initial level) [] (Bits.ofBytes (header level))
  rw [show (initial level).written [] = [] from rfl, List.nil_append] at hwritten
  exact hwritten

theorem opened_openStream (level : Level) :
    Opened level (initial level).openStream [] [] where
  level_eq := rfl
  content_eq := rfl
  sums_eq := rfl
  totalOut_eq := rfl
  spelled_le := Nat.le_refl 0
  pending_lt := (initial level).pending_put_lt _
  opened := rfl
  closed := rfl
  header := by
    exact written_openStream_initial level ▸ List.prefix_rfl
  stream := by
    rcases isHeader_header level with ⟨method, flags, hheader, hvalid⟩
    rw [written_openStream_initial, hheader, ← List.append_nil (Bits.ofBytes [method, flags])]
    exact .intro hvalid .nil

section Opened

variable {level : Level}

theorem Opened.openStream_eq (hopened : Opened level session delivered input) :
    session.openStream = session := by
  rw [openStream, if_pos hopened.opened]

theorem Opened.absorb (hopened : Opened level session delivered input) (more : Bytes) :
    Opened level (session.absorb more) delivered (input ++ more) := { hopened with
  content_eq := by
    rw [← hopened.content_eq]
    exact Array.toList_appendList
  sums_eq := by
    rw [Adler.ofBytes, Adler.addBytes_append, ← Adler.ofBytes, ← hopened.sums_eq]
    rfl
  spelled_le := by
    rw [List.length_append]
    exact Nat.le_add_right_of_le hopened.spelled_le
  stream := by
    have hstream := hopened.stream
    rw [← List.take_append_of_le_length hopened.spelled_le] at hstream
    exact hstream }

/-- The input up to a place is written as blocks that hold it, and these are not many. -/
theorem spellTo_eq (session : Encoder) {stop : Nat}
    (hle : session.spelled ≤ stop)
    (hstop : stop ≤ session.content.size) :
    ∃ blocks seen, Block.Chain session.content session.spelled blocks stop ∧
      Block.closeAt * blocks.length ≤ (stop - session.spelled) + Block.closeAt ∧
      session.spellTo stop =
        blocks.foldl (putBlock false) { session with spelled := stop, seen := seen } := by
  generalize hspell : Matcher.spell (effort session.level) session.content stop
    (stop - session.spelled) 0 session.seen #[] = result
  have hcover : Token.Cover session.content session.spelled result.1.toList stop := by
    rw [← hspell]
    apply Matcher.spell_cover _ (Nat.zero_le _) (Nat.sub_le _ _) hstop
    have hstart : stop - (stop - session.spelled) + 0 = session.spelled := by omega
    rw [hstart]
    exact .nil
  have hflatten := Block.flatten_divide result.1.toList 0 #[]
  rw [List.nil_append] at hflatten
  have hgroups : ∀ group ∈ Block.divide result.1.toList 0 #[],
      Token.totalSize group < 2 ^ 16 := by
    intro group hmem
    have hnone : Token.totalSize (#[] : Array Token).toList = 0 := rfl
    have hlt := Block.totalSize_of_mem_divide hcover.size_le hnone (by decide) group hmem
    exact Nat.lt_trans hlt (by decide)
  have hcount := Block.length_divide_le result.1.toList 0 #[] rfl
  have hsize := hcover.stop_eq
  rw [← hflatten] at hcover
  refine ⟨_, result.2, Block.chain_ofGroups (session.level.value == 0) hcover
    (Nat.le_trans hle hstop) hgroups, ?_, ?_⟩
  · rw [Block.length_ofGroups]
    omega
  · rw [spellTo, hspell]

theorem Opened.spellTo (hopened : Opened level session delivered input) {stop : Nat}
    (hle : session.spelled ≤ stop)
    (hstop : stop ≤ input.length) :
    Opened level (session.spellTo stop) delivered input ∧
      (session.spellTo stop).spelled = stop ∧
      ∃ blocks, Block.closeAt * blocks ≤ (stop - session.spelled) + Block.closeAt ∧
        ((session.spellTo stop).written delivered).length ≤
          (session.written delivered).length + (42 * blocks + 8 * (stop - session.spelled)) := by
  have hstop' : stop ≤ session.content.size := by
    rw [← Array.length_toList, hopened.content_eq]
    exact hstop
  rcases spellTo_eq session hle hstop' with ⟨blocks, seen, hchain, hcount, heq⟩
  have hpending : ({ session with spelled := stop, seen := seen } : Encoder).pending.length < 8 :=
    hopened.pending_lt
  have hstream := hopened.stream
  rw [← hopened.content_eq] at hstream
  rcases foldl_putBlock hchain hstop' hpending hstream heq.symm with
    ⟨hwrites, hpending', hstream', hkept, hlength⟩
  rw [hopened.content_eq] at hstream'
  have hspelled : (session.spellTo stop).spelled = stop := congrArg spelled hwrites
  constructor
  · exact {
      level_eq := (congrArg Encoder.level hwrites).trans hopened.level_eq
      content_eq := (congrArg (fun after => after.content.toList) hwrites).trans hopened.content_eq
      sums_eq := (congrArg Encoder.sums hwrites).trans hopened.sums_eq
      totalOut_eq := (congrArg Encoder.totalOut hwrites).trans hopened.totalOut_eq
      spelled_le := by
        rw [hspelled]
        exact hstop
      pending_lt := hpending'
      opened := (congrArg Encoder.opened hwrites).trans hopened.opened
      closed := (congrArg Encoder.closed hwrites).trans hopened.closed
      header := hopened.header.trans hkept
      stream := by
        rw [hspelled]
        exact hstream' }
  · exact ⟨hspelled, blocks.length, hcount, hlength⟩

theorem pending_eq_nil (delivered : Bytes) (hpending : session.pending.length < 8)
    (haligned : (session.written delivered).length % 8 = 0) :
    session.pending = [] := by
  rw [aligned_pending] at haligned
  exact List.eq_nil_of_length_eq_zero (by omega)

theorem Opened.block (hopened : Opened level session delivered input) {block : Block}
    (hholds : Block.Holds session.content session.spelled session.spelled block) (final : Bool) :
    Format.Block (session.written delivered).length final (input.take session.spelled)
      (block.bits final session.pending.length) (input.take session.spelled) := by
  have hspelled : session.spelled ≤ session.content.size := by
    rw [← Array.length_toList, hopened.content_eq]
    exact hopened.spelled_le
  rw [← hopened.content_eq]
  exact hholds.isBlock (Nat.le_refl _) hspelled final (session.aligned_pending delivered)

theorem Opened.putMarker (hopened : Opened level session delivered input) :
    Opened level session.putMarker delivered input ∧ session.putMarker.pending = [] := by
  have hholds := Block.holds_stored_nil session.content session.spelled
  have hwritten := session.written_put delivered
    ((Block.stored []).bits false session.pending.length)
  constructor
  · exact { hopened with
      pending_lt := session.pending_put_lt _
      header := by
        rw [Encoder.putMarker, putBlock, hwritten]
        exact hopened.header.trans (List.prefix_append _ _)
      stream := by
        rw [Encoder.putMarker, putBlock, hwritten]
        exact hopened.stream.snoc (hopened.block hholds false) }
  · apply pending_eq_nil delivered (session.pending_put_lt _)
    have hboundary := Format.aligned_padding (session.pending.length + 3)
    have hpending := session.aligned_pending delivered
    rw [hwritten, List.length_append, Block.length_bits_stored, List.length_nil]
    omega

/-!
## Sessions that are closed
-/

/-- The session has written a stream for all of its input. -/
structure Closed (level : Level) (session : Encoder) (delivered input : Bytes) : Prop where
  content_eq : session.content.toList = input
  totalOut_eq : session.totalOut = delivered.length
  closed : session.closed = true
  header : header level <+: delivered ++ session.queue
  stream : Format.Stream (delivered ++ session.queue) input

theorem ofBytes_of_pending (delivered : Bytes) (hpending : session.pending = []) :
    Bits.ofBytes (delivered ++ session.queue) = session.written delivered := by
  rw [written, hpending, List.append_nil]

theorem written_closeStream (session : Encoder) (delivered : Bytes) :
    session.closeStream.written delivered =
      session.written delivered ++ (Block.fixed []).bits true session.pending.length ++
        List.replicate (padding ((session.written delivered).length + 10)) false ++
        Bits.ofBytes (ByteOrder.big.encode 4 session.sums.value) := by
  generalize hlast : (Block.fixed []).bits true session.pending.length = last
  have hten : last.length = 10 := by
    rw [← hlast]
    rfl
  have hfill : padding (session.put last).pending.length =
      padding ((session.written delivered).length + 10) := by
    apply Block.padding_congr
    rw [← aligned_pending _ delivered, written_put, List.length_append, hten]
  rw [← hfill, ← written_put, ← written_put, ← written_put, ← hlast]
  rfl

theorem Opened.closeStream (hopened : Opened level session delivered input)
    (hspelled : session.spelled = input.length) :
    Closed level session.closeStream delivered input ∧
      8 * (delivered ++ session.closeStream.queue).length ≤
        (session.written delivered).length + 49 := by
  have hwritten := session.written_closeStream delivered
  have hblock := hopened.block (.fixed .nil) true
  have hten : ((Block.fixed []).bits true session.pending.length).length = 10 := rfl
  generalize (Block.fixed []).bits true session.pending.length = last at hwritten hblock hten
  have hpadding := Format.padding_lt ((session.written delivered).length + 10)
  have hboundary := Format.aligned_padding ((session.written delivered).length + 10)
  have hfill : (List.replicate (padding ((session.written delivered).length + 10)) false).length =
      padding ((session.written delivered).length + 10) := List.length_replicate
  generalize List.replicate (padding ((session.written delivered).length + 10)) false = fill
    at hwritten hfill
  have hlength := congrArg List.length hwritten
  simp only [List.length_append, hten, hfill, Bits.length_ofBytes, ByteOrder.length_encode]
    at hlength
  have hpending : session.closeStream.pending = [] := by
    apply pending_eq_nil delivered
    · exact pending_put_lt _ _
    · omega
  have hbytes := ofBytes_of_pending delivered hpending
  have hcontent : input.take session.spelled = input := by
    rw [hspelled, List.take_length]
  have hstream := hopened.stream
  rw [hcontent] at hblock hstream
  constructor
  · exact {
      content_eq := hopened.content_eq
      totalOut_eq := hopened.totalOut_eq
      closed := rfl
      header := by
        apply Bits.prefix_of_ofBytes
        rw [hbytes, hwritten, List.append_assoc, List.append_assoc]
        exact hopened.header.trans (List.prefix_append _ _)
      stream := by
        apply Format.Stream.intro hstream hblock
        · rw [hfill]
          exact hpadding
        · rw [hfill, hten]
          exact hboundary
        · rw [hbytes, hwritten, hopened.sums_eq, Adler.value_ofBytes] }
  · rw [← Bits.length_ofBytes, hbytes, hlength]
    omega

/-!
## Parts of a step
-/

/-- The session is new, or has written a part of a stream that is not ended. -/
def Unclosed (level : Level) (session : Encoder) (delivered input : Bytes) : Prop :=
  (session = initial level ∧ delivered = [] ∧ input = []) ∨ Opened level session delivered input

theorem Unclosed.closed (hunclosed : Unclosed level session delivered input) :
    session.closed = false := by
  rcases hunclosed with ⟨hnew, _, _⟩ | hopened
  · rw [hnew]
    rfl
  · exact hopened.closed

theorem Unclosed.content_eq (hunclosed : Unclosed level session delivered input) :
    session.content.toList = input := by
  rcases hunclosed with ⟨hnew, _, hinput⟩ | hopened
  · rw [hnew, hinput]
    rfl
  · exact hopened.content_eq

theorem Unclosed.openStream (hunclosed : Unclosed level session delivered input) :
    Opened level session.openStream delivered input := by
  rcases hunclosed with ⟨hnew, hdelivered, hinput⟩ | hopened
  · rw [hnew, hdelivered, hinput]
    exact opened_openStream level
  · rw [hopened.openStream_eq]
    exact hopened

theorem readyTo_eq (session : Encoder) {flush : Flush} (hflush : flush ≠ .none) :
    session.readyTo flush = session.content.size := by
  cases flush with
  | none => exact absurd rfl hflush
  | partly => rfl
  | sync => rfl
  | full => rfl
  | finish => rfl

theorem Opened.size_content (hopened : Opened level session delivered input) :
    session.content.size = input.length := by
  rw [← Array.length_toList, hopened.content_eq]

theorem Opened.readyTo (hopened : Opened level session delivered input) (flush : Flush) :
    session.spelled ≤ session.readyTo flush ∧ session.readyTo flush ≤ input.length := by
  have hsize := hopened.size_content
  by_cases hflush : flush = .none
  · rw [hflush, Encoder.readyTo, hsize]
    exact ⟨Nat.le_max_left _ _, Nat.max_le.mpr ⟨hopened.spelled_le, Nat.sub_le _ _⟩⟩
  · rw [readyTo_eq session hflush, hsize]
    exact ⟨hopened.spelled_le, Nat.le_refl _⟩

theorem Opened.flushBy (hopened : Opened level session delivered input) {flush : Flush}
    (hflush : flush ≠ .none ∧ flush ≠ .finish) :
    Opened level (session.flushBy flush) delivered input ∧ (session.flushBy flush).pending = [] ∧
      (session.flushBy flush).spelled = session.spelled := by
  rcases hopened.putMarker with ⟨hmarked, hpending⟩
  cases flush with
  | none => exact absurd rfl hflush.left
  | partly => exact ⟨hmarked, hpending, rfl⟩
  | sync => exact ⟨hmarked, hpending, rfl⟩
  | full => exact ⟨{ hmarked with }, hpending, rfl⟩
  | finish => exact absurd rfl hflush.right

theorem extend_eq (session : Encoder) {more : Bytes} {flush : Flush}
    (hsome : ¬ (flush = .none ∧ more = [])) :
    session.extend more flush =
      ((session.openStream.absorb more).spellTo
        ((session.openStream.absorb more).readyTo flush)).flushBy flush :=
  if_neg hsome

theorem Unclosed.extend (hunclosed : Unclosed level session delivered input) (more : Bytes)
    {flush : Flush}
    (hflush : flush ≠ .finish) :
    Unclosed level (session.extend more flush) delivered (input ++ more) ∧
      (flush ≠ .none →
        Format.OpenStream (Bits.ofBytes (delivered ++ (session.extend more flush).queue))
          (input ++ more)) := by
  by_cases hnothing : flush = .none ∧ more = []
  · rw [Encoder.extend, if_pos hnothing, hnothing.right, List.append_nil]
    exact ⟨hunclosed, fun hsome => absurd hnothing.left hsome⟩
  · have habsorbed := hunclosed.openStream.absorb more
    rcases habsorbed.readyTo flush with ⟨hle, hstop⟩
    rcases habsorbed.spellTo hle hstop with ⟨hspelt, hspelled, _⟩
    rw [extend_eq session hnothing]
    by_cases hkept : flush = .none
    · rw [hkept] at hspelt ⊢
      exact ⟨Or.inr hspelt, fun hsome => absurd rfl hsome⟩
    · rcases hspelt.flushBy ⟨hkept, hflush⟩ with ⟨hflushed, hpending, hplace⟩
      refine ⟨Or.inr hflushed, fun _ => ?_⟩
      have hall := (readyTo_eq _ hkept).trans habsorbed.size_content
      have hstream := hflushed.stream
      rw [hplace.trans (hspelled.trans hall), List.take_length] at hstream
      rw [ofBytes_of_pending delivered hpending]
      exact hstream

theorem Unclosed.finish (hunclosed : Unclosed level session delivered input) (more : Bytes) :
    Closed level (session.extend more .finish) delivered (input ++ more) ∧
      ∃ blocks, Block.closeAt * blocks ≤
          ((input ++ more).length - session.openStream.spelled) + Block.closeAt ∧
        8 * (delivered ++ (session.extend more .finish).queue).length ≤
          (session.openStream.written delivered).length + (42 * blocks +
            8 * ((input ++ more).length - session.openStream.spelled)) + 49 := by
  have hnothing : ¬ (Flush.finish = .none ∧ more = []) := fun h => Flush.noConfusion h.left
  have habsorbed := hunclosed.openStream.absorb more
  have hready := readyTo_eq (session.openStream.absorb more) (show Flush.finish ≠ .none by decide)
  rw [habsorbed.size_content] at hready
  rcases habsorbed.readyTo .finish with ⟨hle, hstop⟩
  rcases habsorbed.spellTo hle hstop with ⟨hspelt, hspelled, blocks, hcount, hlength⟩
  rw [hready] at hspelt hspelled hcount hlength
  rcases hspelt.closeStream hspelled with ⟨hclosed, hbytes⟩
  rw [extend_eq session hnothing, hready]
  refine ⟨hclosed, blocks, hcount, ?_⟩
  exact Nat.le_trans hbytes (Nat.add_le_add_right hlength 49)

theorem written_deliver (session : Encoder) (delivered : Bytes) (room : Nat) :
    (session.deliver room).1.written (delivered ++ (session.deliver room).2) =
      session.written delivered := by
  show Bits.ofBytes (delivered ++ session.queue.take room ++ session.queue.drop room) ++
    session.pending = session.written delivered
  rw [List.append_assoc, List.take_append_drop, written]

theorem totalOut_deliver (session : Encoder) (room : Nat) :
    (session.deliver room).1.totalOut = session.totalOut + (session.deliver room).2.length :=
  rfl

theorem Unclosed.deliver (hunclosed : Unclosed level session delivered input) (room : Nat) :
    Unclosed level (session.deliver room).1 (delivered ++ (session.deliver room).2) input := by
  have hwritten := session.written_deliver delivered room
  rcases hunclosed with ⟨hnew, hdelivered, hinput⟩ | hopened
  · rw [hnew, hdelivered, hinput]
    apply Or.inl
    have hnone : (initial level).queue.take room = [] := List.take_nil
    exact ⟨by simp [Encoder.deliver, initial], hnone, rfl⟩
  · apply Or.inr
    exact { hopened with
      totalOut_eq := by
        rw [totalOut_deliver, hopened.totalOut_eq, List.length_append]
      header := by
        rw [hwritten]
        exact hopened.header
      stream := by
        rw [hwritten]
        exact hopened.stream }

theorem Closed.deliver (hclosed : Closed level session delivered input) (room : Nat) :
    Closed level (session.deliver room).1 (delivered ++ (session.deliver room).2) input := by
  have hqueue : delivered ++ (session.deliver room).2 ++ (session.deliver room).1.queue =
      delivered ++ session.queue := by
    show delivered ++ session.queue.take room ++ session.queue.drop room = _
    rw [List.append_assoc, List.take_append_drop]
  exact { hclosed with
    totalOut_eq := by
      rw [totalOut_deliver, hclosed.totalOut_eq, List.length_append]
    header := by
      rw [hqueue]
      exact hclosed.header
    stream := by
      rw [hqueue]
      exact hclosed.stream }

end Opened

/-!
## Steps
-/

theorem step_no_room (session : Encoder) (input : Bytes) (flush : Flush) :
    session.step input 0 flush = ⟨session, [], .ok .stalled⟩ :=
  rfl

theorem step_closed {room : Nat} (input : Bytes) (flush : Flush)
    (hroom : 0 < room)
    (hclosed : session.closed = true)
    (hqueue : session.queue = []) :
    session.step input room flush =
      ⟨session, [], .ok (if flush = .finish then .streamEnd else .stalled)⟩ := by
  rw [step, if_neg (Nat.ne_of_gt hroom), hclosed, hqueue]
  rfl

theorem step_unclosed {room : Nat} (input : Bytes) (flush : Flush)
    (hroom : 0 < room)
    (hclosed : session.closed = false) :
    session.step input room flush =
      ⟨((session.extend input flush).deliver room).1, ((session.extend input flush).deliver room).2,
        .ok (((session.extend input flush).deliver room).1.verdict input
          ((session.extend input flush).deliver room).2 flush)⟩ := by
  rw [step, if_neg (Nat.ne_of_gt hroom), hclosed]
  rfl

theorem deliver_of_length_le {room : Nat} (hroom : session.queue.length ≤ room) :
    (session.deliver room).2 = session.queue ∧ (session.deliver room).1.queue = [] :=
  ⟨List.take_of_length_le hroom, List.drop_of_length_le hroom⟩

theorem deliver_of_queue {room : Nat} (hqueue : (session.deliver room).1.queue = []) :
    (session.deliver room).2 = session.queue := by
  have hsplit : (session.deliver room).2 ++ (session.deliver room).1.queue = session.queue :=
    List.take_append_drop room session.queue
  rw [hqueue, List.append_nil] at hsplit
  exact hsplit

end Encoder
end BoundedZlib
