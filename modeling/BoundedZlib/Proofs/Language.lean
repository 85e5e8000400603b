import BoundedZlib.Proofs.FullReading
import BoundedZlib.Proofs.RefusedReading

/-!
# The streams that reading accepts

Reading in full, bit by bit, accepts exactly the streams of the format, and
spells their content.  For each part of a stream there are two statements: its
bits lead from the place before it to the place after it, and all bits either
begin with such a part, or they do not lead to the end of the stream and spell
what a beginning of the part spells.
-/

namespace BoundedZlib

def Place.afterBlock (final : Bool) : Place :=
  if final then .trailer else .block

def Place.storing (final : Bool) : Nat → Place
  | 0 => .afterBlock final
  | left + 1 => .stored final (left + 1)

theorem Format.Tokens.split {literals distances : List Nat} {before after : Bytes}
    {bits : List Bool} (htokens : Tokens literals distances before bits after) :
    ∃ front code, bits = front ++ code ∧ OpenTokens literals distances before front after ∧
      IsCode literals 256 code := by
  induction htokens with
  | @stop _ code hcode => exact ⟨[], code, rfl, .nil, hcode⟩
  | literal hcode _ ih =>
      rcases ih with ⟨front, code, hrest, hfront, hstop⟩
      exact ⟨_, code, by rw [hrest, ← List.append_assoc], .literal hcode hfront, hstop⟩
  | copy hlengthCode hlength hdistanceCode hdistance hrepeats _ ih =>
      rcases ih with ⟨front, code, hrest, hfront, hstop⟩
      exact ⟨_, code, by rw [hrest, ← List.append_assoc],
        .copy hlengthCode hlength hdistanceCode hdistance hrepeats hfront, hstop⟩

theorem Format.Describes.exists_codes {literals distances : List Nat} {bits : List Bool}
    (hdescribes : Describes literals distances bits) :
    ∃ codes, Codes.ofLengths? literals distances = some codes := by
  have hle := hdescribes.le_maxLength
  apply (Codes.exists_ofLengths?_iff hle.left hle.right).mpr
  cases hdescribes with
  | intro _ _ _ _ _ _ _ husable => exact husable

namespace Inflater

def midst (reader : BitReader (Element × List Part)) (place : Place) (position : Nat)
    (content : Bytes) : Inflater where
  place := place
  phase := .reading reader
  position := position
  content := content.toArray
  strict := false

def standing (place : Place) (position : Nat) (content : Bytes) : Inflater :=
  midst (place.reader position) place position content

theorem initial_eq_standing : initial false = standing .start 0 [] := rfl

/-!
## Elements
-/

theorem accept_phase (state : Inflater) (phase : Phase) (element : Element) :
    accept { state with phase := phase } element = state.accept element := by
  cases element with
  | header => rfl
  | opening final body =>
      cases body with
      | stored length =>
          cases length with
          | zero => rfl
          | succ left => rfl
      | coded codes => rfl
  | token? token? =>
      cases token? with
      | some token => rfl
      | none =>
          cases hplace : state.place with
          | coded final codes => simp only [accept, hplace]; rfl
          | start => simp only [accept, hplace]
          | block => simp only [accept, hplace]
          | stored final left => simp only [accept, hplace]
          | trailer => simp only [accept, hplace]
  | checksum value => rfl

section Elements

variable {next : Bool → BitReader (Element × List Part)} {b : Bool} (place : Place)
  (position : Nat) (content : Bytes)

theorem feed_done {read : Element × List Part} (hnext : next b = .done read) :
    ((midst (.bit next) place position content).feed b).1 =
      (standing place (position + 1) content).accept read.1 := by
  have haccept := accept_phase (standing place (position + 1) content) (.reading (.bit next)) read.1
  rw [← haccept]
  simp only [feed, midst, BitReader.feed, hnext]
  rfl

theorem feed_bit {next' : Bool → BitReader (Element × List Part)} (hnext : next b = .bit next') :
    ((midst (.bit next) place position content).feed b).1 =
      midst (.bit next') place (position + 1) content := by
  simp only [feed, midst, BitReader.feed, hnext]

/-- The end of the stream is not reached, the content is this, and a failure has this reason. -/
structure Pending (state : Inflater) (content : Bytes) (reason : Prop) : Prop where
  not_isFinished : state.isFinished = false
  content_eq : state.content.toList = content
  reason_of_hasFailed : state.hasFailed = true → reason

theorem Pending.imp {state : Inflater} {content : Bytes} {reason other : Prop}
    (hpending : state.Pending content reason) (himp : reason → other) :
    state.Pending content other where
  not_isFinished := hpending.not_isFinished
  content_eq := hpending.content_eq
  reason_of_hasFailed := fun hfailed => himp (hpending.reason_of_hasFailed hfailed)

theorem feedFully_of_reject {reader : BitReader (Element × List Part)}
    (hreject : reader.feed b = .reject) (rest : List Bool) :
    (midst reader place position content).feedFully (b :: rest) =
      { midst reader place (position + 1) content with phase := .failed } := by
  have hfeed : ((midst reader place position content).feed b).1 =
      { midst reader place (position + 1) content with phase := .failed } := by
    simp only [feed, midst, hreject]
  rw [feedFully_cons, hfeed, settleFully_of_hasFailed rfl, feedFully_of_hasFailed rfl]

theorem pending_of_reject {reader : BitReader (Element × List Part)}
    (hreject : reader.feed b = .reject) (rest : List Bool) {reason : Prop} (hreason : reason) :
    ((midst reader place position content).feedFully (b :: rest)).Pending content reason := by
  rw [feedFully_of_reject place position content hreject]
  exact ⟨rfl, rfl, fun _ => hreason⟩

theorem settleFully_midst (reader : BitReader (Element × List Part)) :
    (midst reader place position content).settleFully = midst reader place position content :=
  settleFully_of_wantsBit rfl

/-- An element that is read is taken up. -/
theorem feedFully_of_reads {reader : BitReader (Element × List Part)} {front : List Bool}
    {read : Element × List Part}
    (hreads : reader.Reads front read)
    (hne : front ≠ [])
    (back : List Bool) :
    (midst reader place position content).feedFully (front ++ back) =
      ((standing place (position + front.length) content).accept
        read.1).settleFully.feedFully back := by
  induction hreads generalizing position with
  | done => exact absurd rfl hne
  | @bit next b rest value hrest ih =>
      rw [List.cons_append, feedFully_cons, List.length_cons]
      cases hnext : next b with
      | done value' =>
          rw [hnext, BitReader.reads_done] at hrest
          rcases hrest with ⟨hrest, hvalue⟩
          rw [feed_done place position content hnext, hrest, hvalue, List.nil_append,
            List.length_nil]
      | bit next' =>
          have hrest' : rest ≠ [] := by
            intro hnil
            rw [hnext, hnil] at hrest
            exact absurd hrest BitReader.not_reads_bit_nil
          have ih' := ih (position + 1) hrest'
          rw [hnext] at ih'
          rw [feed_bit place position content hnext, settleFully_midst, ih']
          rw [show position + 1 + rest.length = position + (rest.length + 1) by omega]
      | reject =>
          rw [hnext] at hrest
          exact absurd hrest BitReader.not_reads_reject

/-- A reading fails with the bits that its reader refuses, and adds nothing. -/
theorem feedFully_of_refuses {reader : BitReader (Element × List Part)} {front : List Bool}
    (hrefuses : reader.Refuses front)
    (hne : front ≠ [])
    (back : List Bool) :
    ((midst reader place position content).feedFully (front ++ back)).hasFailed = true ∧
      ((midst reader place position content).feedFully (front ++ back)).content.toList =
        content := by
  induction hrefuses generalizing position with
  | reject => exact absurd rfl hne
  | @bit next b rest hrest ih =>
      rw [List.cons_append]
      cases hnext : next b with
      | done value =>
          rw [hnext] at hrest
          cases hrest
      | bit next' =>
          have hrest' : rest ≠ [] := by
            intro hnil
            rw [hnext, hnil] at hrest
            cases hrest
          have ih' := ih (position + 1) hrest'
          rw [hnext] at ih'
          rw [feedFully_cons, feed_bit place position content hnext, settleFully_midst]
          exact ih'
      | reject =>
          have hreject : (BitReader.bit next).feed b = .reject := hnext
          rw [feedFully_of_reject place position content hreject]
          exact ⟨rfl, rfl⟩

/-- An element that was begun is read, or refused, or bits run out before it adds anything. -/
theorem reads_or_pending {reader : BitReader (Element × List Part)}
    (hreader : ∀ read, ¬ reader.Reads [] read) (bits : List Bool) :
    (∃ front back read, bits = front ++ back ∧ front ≠ [] ∧ reader.Reads front read) ∨
      ((midst reader place position content).feedFully bits).Pending content
        (∃ front, front <+: bits ∧ reader.Refuses front) := by
  induction bits generalizing reader position with
  | nil => exact Or.inr ⟨rfl, rfl, fun hfailed => Bool.noConfusion hfailed⟩
  | cons b rest ih =>
      cases reader with
      | done value => exact absurd BitReader.Reads.done (hreader value)
      | reject =>
          exact Or.inr (pending_of_reject place position content rfl rest
            ⟨[], List.nil_prefix, BitReader.Refuses.reject⟩)
      | bit next =>
          cases hnext : next b with
          | done value =>
              refine Or.inl ⟨[b], rest, value, rfl, List.cons_ne_nil _ _, ?_⟩
              rw [BitReader.reads_bit_cons, hnext, BitReader.reads_done]
              exact ⟨rfl, rfl⟩
          | bit next' =>
              rw [feedFully_cons, feed_bit place position content hnext, settleFully_midst]
              rcases ih (position + 1) (fun read => @BitReader.not_reads_bit_nil _ next' read) with
                ⟨front, back, read, hrest, _, hreads⟩ | hpending
              · refine Or.inl ⟨b :: front, back, read, by rw [hrest, List.cons_append],
                  List.cons_ne_nil _ _, ?_⟩
                rw [BitReader.reads_bit_cons, hnext]
                exact hreads
              · refine Or.inr (hpending.imp ?_)
                intro h
                rcases h with ⟨front, hfront, hrefuses⟩
                refine ⟨b :: front, (List.prefix_cons_inj b).mpr hfront, ?_⟩
                rw [BitReader.refuses_bit_cons, hnext]
                exact hrefuses
          | reject =>
              have hreject : (BitReader.bit next).feed b = .reject := hnext
              refine Or.inr (pending_of_reject place position content hreject rest
                ⟨[b], List.prefix_append [b] rest, ?_⟩)
              rw [BitReader.refuses_bit_cons, hnext]
              exact BitReader.Refuses.reject

end Elements

/-!
## What stands at each place
-/

theorem reads_start {position : Nat} {bits : List Bool} {element : Element} :
    (∃ parts, (Place.reader position .start).Reads bits (element, parts)) ↔
      element = .header ∧ ∃ method flags : UInt8,
        Format.IsHeader method flags ∧ bits = Bits.ofBytes [method, flags] := by
  rw [← Format.reads_headerReader]
  simp only [Place.reader, BitReader.bind_eq_bind, BitReader.pure_eq_done,
    BitReader.reads_bind_done, Prod.mk.injEq]
  constructor
  · intro h
    rcases h with ⟨_, value, hread, hvalue, _⟩
    rw [← hvalue]
    exact hread
  · intro hread
    exact ⟨_, element, hread, rfl, rfl⟩

theorem reads_block {position : Nat} {bits : List Bool} {element : Element} :
    (∃ parts, (Place.reader position .block).Reads bits (element, parts)) ↔
      ∃ final body, element = .opening final body ∧ Format.IsOpening position final bits body := by
  simp only [← Format.reads_openingReader, Place.reader, BitReader.bind_eq_bind,
    BitReader.pure_eq_done, BitReader.reads_bind_done, Prod.mk.injEq]
  constructor
  · intro h
    rcases h with ⟨parts, ⟨⟨final, body⟩, _⟩, hread, helement, hparts⟩
    exact ⟨final, body, helement.symm, _, hread⟩
  · intro h
    rcases h with ⟨final, body, helement, parts, hread⟩
    exact ⟨parts, ((final, body), parts), hread, helement.symm, rfl⟩

theorem reads_coded {position : Nat} {bits : List Bool} {element : Element} {final : Bool}
    {codes : Codes} {literals distances : List Nat} (hcodes : codes.Decode literals distances) :
    (∃ parts, (Place.reader position (.coded final codes)).Reads bits (element, parts)) ↔
      ∃ token?, element = .token? token? ∧ Format.IsToken literals distances bits token? := by
  simp only [← Format.reads_tokenReader hcodes.literals hcodes.distances, Place.reader,
    BitReader.bind_eq_bind, BitReader.pure_eq_done, BitReader.reads_bind_done, Prod.mk.injEq]
  constructor
  · intro h
    rcases h with ⟨parts, ⟨token?, _⟩, hread, helement, hparts⟩
    exact ⟨token?, helement.symm, _, hread⟩
  · intro h
    rcases h with ⟨token?, helement, parts, hread⟩
    exact ⟨parts, (token?, parts), hread, helement.symm, rfl⟩

theorem reads_stored {position : Nat} {bits : List Bool} {element : Element} {final : Bool}
    {left : Nat} :
    (∃ parts, (Place.reader position (.stored final left)).Reads bits (element, parts)) ↔
      ∃ byte, element = .token? (some (.literal byte)) ∧ bits = Bits.ofByte byte := by
  simp only [Place.reader, BitReader.bind_eq_bind, BitReader.pure_eq_done,
    BitReader.reads_bind_done, BitReader.reads_nat, Prod.mk.injEq]
  constructor
  · intro h
    rcases h with ⟨_, number, ⟨hnumber, hbits⟩, helement, _⟩
    refine ⟨UInt8.ofNat number, helement.symm, ?_⟩
    rw [hbits, Bits.ofByte, UInt8.toNat_ofNat', Nat.mod_eq_of_lt hnumber]
  · intro h
    rcases h with ⟨byte, helement, hbits⟩
    refine ⟨_, byte.toNat, ⟨byte.toNat_lt, hbits⟩, ?_, rfl⟩
    rw [helement, UInt8.ofNat_toNat]

theorem reads_trailer {position : Nat} {bits : List Bool} {element : Element} :
    (∃ parts, (Place.reader position .trailer).Reads bits (element, parts)) ↔
      ∃ filling bytes, bits = filling ++ Bits.ofBytes bytes ∧
        filling.length = padding position ∧ bytes.length = 4 ∧
        element = .checksum (ByteOrder.big.decode bytes) := by
  rw [← Format.reads_checksumReader]
  simp only [Place.reader, BitReader.bind_eq_bind, BitReader.pure_eq_done,
    BitReader.reads_bind_done, Prod.mk.injEq]
  constructor
  · intro h
    rcases h with ⟨_, value, hread, hvalue, _⟩
    rw [← hvalue]
    exact hread
  · intro hread
    exact ⟨_, element, hread, rfl, rfl⟩

/-!
## From element to element
-/

theorem accept_header (position : Nat) (content : Bytes) :
    ((standing .start position content).accept .header).settleFully =
      standing .block position content := rfl

theorem accept_storing (position : Nat) (content : Bytes) (final : Bool) (length : Nat) :
    ((standing .block position content).accept (.opening final (.stored length))).settleFully =
      standing (.storing final length) position content := by
  cases length with
  | zero => rfl
  | succ left => rfl

theorem accept_coded (position : Nat) (content : Bytes) (final : Bool) (codes : Codes) :
    ((standing .block position content).accept (.opening final (.coded codes))).settleFully =
      standing (.coded final codes) position content := rfl

theorem accept_stop (position : Nat) (content : Bytes) (final : Bool) (codes : Codes) :
    ((standing (.coded final codes) position content).accept (.token? none)).settleFully =
      standing (.afterBlock final) position content := rfl

theorem accept_token (position : Nat) (before after : Bytes) (final : Bool) (codes : Codes)
    (token : Token)
    (hspell : (Content.spell before.toArray token).toList = after) :
    ((standing (.coded final codes) position before).accept (.token? (some token))).settleFully =
      standing (.coded final codes) position after := by
  subst hspell
  cases token with
  | literal byte => rfl
  | copy length distance => rfl

theorem accept_byte (position : Nat) (content : Bytes) (final : Bool) (left : Nat) (byte : UInt8) :
    ((standing (.stored final (left + 1)) position content).accept
        (.token? (some (.literal byte)))).settleFully =
      standing (.storing final left) position (content ++ [byte]) := by
  have hcontent : (content ++ [byte]).toArray = content.toArray.push byte := by simp
  simp only [standing, midst, hcontent]
  cases left with
  | zero => rfl
  | succ left => rfl

def ended (position : Nat) (content : Bytes) : Inflater where
  place := .trailer
  phase := .finished
  position := position
  content := content.toArray
  strict := false

theorem accept_checksum (position : Nat) (content bytes : Bytes) (hlength : bytes.length = 4) :
    ((standing .trailer position content).accept
        (.checksum (ByteOrder.big.decode bytes))).settleFully =
      if bytes = ByteOrder.big.encode 4 (Format.checksum content) then ended position content
      else { ended position content with phase := .failed } := by
  have hsums : content.toArray.foldl Adler.add {} = Adler.ofBytes content := by
    rw [← Array.foldl_toList]
    rfl
  have hvalue : (content.toArray.foldl Adler.add {}).value = Format.checksum content := by
    rw [hsums, Adler.value_ofBytes]
  simp only [accept, standing, midst, hvalue, Format.decode_eq_checksum hlength]
  split
  · rfl
  · rfl

theorem feedFully_element {place : Place} {position : Nat} {content : Bytes} {front : List Bool}
    {element : Element}
    (hreads : ∃ parts, (place.reader position).Reads front (element, parts))
    (hne : front ≠ [])
    (back : List Bool) :
    (standing place position content).feedFully (front ++ back) =
      ((standing place (position + front.length) content).accept
        element).settleFully.feedFully back := by
  rcases hreads with ⟨parts, hreads⟩
  exact feedFully_of_reads place position content hreads hne back

/-!
## What the parts of a stream lead to
-/

theorem feedFully_openTokens {codes : Codes} {literals distances : List Nat}
    (hcodes : codes.Decode literals distances)
    {before after : Bytes} {bits : List Bool}
    (htokens : Format.OpenTokens literals distances before bits after)
    (final : Bool) (position : Nat) (back : List Bool) :
    (standing (.coded final codes) position before).feedFully (bits ++ back) =
      (standing (.coded final codes) (position + bits.length) after).feedFully back := by
  induction htokens generalizing position with
  | nil => rfl
  | @literal before after byte code rest hcode _ ih =>
      have htoken : Format.IsToken literals distances code (some (.literal byte)) :=
        Format.IsToken.literal hcode
      rw [List.append_assoc,
        feedFully_element ((reads_coded hcodes).mpr ⟨_, rfl, htoken⟩) htoken.ne_nil,
        accept_token _ _ (before ++ [byte]) _ _ _ (by simp [Content.spell]), ih,
        List.length_append, Nat.add_assoc]
  | @copy before middle after lengthIndex distanceIndex length distance lengthCode lengthMore
      distanceCode distanceMore rest hlengthCode hlength hdistanceCode hdistance hrepeats _ ih =>
      have htoken := Format.IsToken.copy hlengthCode hlength hdistanceCode hdistance
      have hspell : (Content.spell before.toArray (.copy length distance)).toList = middle :=
        (Format.repeats_iff hdistance.pos).mp hrepeats
      rw [List.append_assoc _ rest back,
        feedFully_element ((reads_coded hcodes).mpr ⟨_, rfl, htoken⟩) htoken.ne_nil,
        accept_token _ _ middle _ _ _ hspell, ih, @List.length_append _ _ rest, Nat.add_assoc]

theorem feedFully_tokens {codes : Codes} {literals distances : List Nat}
    (hcodes : codes.Decode literals distances)
    {before after : Bytes} {bits : List Bool}
    (htokens : Format.Tokens literals distances before bits after)
    (final : Bool) (position : Nat) (back : List Bool) :
    (standing (.coded final codes) position before).feedFully (bits ++ back) =
      (standing (.afterBlock final) (position + bits.length) after).feedFully back := by
  rcases htokens.split with ⟨front, code, hbits, hfront, hcode⟩
  have htoken : Format.IsToken literals distances code none := Format.IsToken.stop hcode
  rw [hbits, List.append_assoc, feedFully_openTokens hcodes hfront,
    feedFully_element ((reads_coded hcodes).mpr ⟨none, rfl, htoken⟩) htoken.ne_nil, accept_stop,
    List.length_append, Nat.add_assoc]

theorem feedFully_stored (bytes before : Bytes) (final : Bool) (position left : Nat)
    (back : List Bool) :
    (standing (.storing final (bytes.length + left)) position before).feedFully
        (Bits.ofBytes bytes ++ back) =
      (standing (.storing final left) (position + (Bits.ofBytes bytes).length)
        (before ++ bytes)).feedFully back := by
  induction bytes generalizing position before with
  | nil =>
      rw [Bits.ofBytes_nil, List.append_nil, List.length_nil, Nat.zero_add]
      rfl
  | cons byte rest ih =>
      have hne : Bits.ofByte byte ≠ [] := List.ne_nil_of_length_pos (by simp)
      rw [Bits.ofBytes_cons, List.append_assoc, List.length_cons, Nat.add_right_comm,
        Place.storing, feedFully_element (reads_stored.mpr ⟨byte, rfl, rfl⟩) hne, accept_byte, ih,
        List.length_append, Nat.add_assoc, List.append_assoc, List.singleton_append]

theorem decode_of_describes {literals distances : List Nat} {bits : List Bool} {codes : Codes}
    (hdescribes : Format.Describes literals distances bits)
    (hcodes : Codes.ofLengths? literals distances = some codes) :
    codes.Decode literals distances :=
  Codes.decode_of_ofLengths? hcodes hdescribes.le_maxLength.left hdescribes.le_maxLength.right

theorem feedFully_codedOpening {position : Nat} {final : Bool} {opening : List Bool} {codes : Codes}
    (hopening : Format.IsOpening position final opening (.coded codes))
    (before : Bytes) (back : List Bool) :
    (standing .block position before).feedFully (opening ++ back) =
      (standing (.coded final codes) (position + opening.length) before).feedFully back := by
  rw [feedFully_element (reads_block.mpr ⟨final, _, rfl, hopening⟩) hopening.ne_nil, accept_coded]

theorem feedFully_block {final : Bool} {position : Nat} {before after : Bytes} {bits : List Bool}
    (hblock : Format.Block position final before bits after)
    (back : List Bool) :
    (standing .block position before).feedFully (bits ++ back) =
      (standing (.afterBlock final) (position + bits.length) after).feedFully back := by
  cases hblock with
  | @stored padding bytes hpadding haligned hlength =>
      have hopening : Format.IsOpening position final _ _ :=
        Format.IsOpening.stored hpadding haligned hlength
      rw [List.append_assoc,
        feedFully_element (reads_block.mpr ⟨final, _, rfl, hopening⟩) hopening.ne_nil,
        accept_storing, ← Nat.add_zero bytes.length, feedFully_stored,
        @List.length_append _ _ (Bits.ofBytes bytes), Nat.add_assoc]
      rfl
  | @fixed _ tokens htokens =>
      rw [List.append_assoc, feedFully_codedOpening Format.IsOpening.fixed,
        feedFully_tokens Format.fixed_decode htokens, List.length_append, Nat.add_assoc]
  | @described _ literals distances description tokens hdescribes htokens =>
      rcases hdescribes.exists_codes with ⟨codes, hcodes⟩
      rw [List.append_assoc,
        feedFully_codedOpening (Format.IsOpening.described hdescribes hcodes),
        feedFully_tokens (decode_of_describes hdescribes hcodes) htokens,
        @List.length_append _ _ tokens, Nat.add_assoc]

theorem feedFully_openBlocks {position : Nat} {before after : Bytes} {bits : List Bool}
    (hblocks : Format.OpenBlocks position before bits after)
    (back : List Bool) :
    (standing .block position before).feedFully (bits ++ back) =
      (standing .block (position + bits.length) after).feedFully back := by
  induction hblocks with
  | nil => rfl
  | @cons position before middle after block rest hblock _ ih =>
      rw [List.append_assoc, feedFully_block hblock, Place.afterBlock, if_neg Bool.false_ne_true,
        ih, List.length_append, Nat.add_assoc]

theorem after_openStream {bits : List Bool} {content : Bytes}
    (hstream : Format.OpenStream bits content) (back : List Bool) :
    after (bits ++ back) = (standing .block bits.length content).feedFully back := by
  cases hstream with
  | @intro method flags blocks _ hheader hblocks =>
      have hreads : ∃ parts,
          (Place.reader 0 .start).Reads (Bits.ofBytes [method, flags]) (.header, parts) :=
        reads_start.mpr ⟨rfl, method, flags, hheader, rfl⟩
      have hne : Bits.ofBytes [method, flags] ≠ [] :=
        List.ne_nil_of_length_pos (by simp)
      have hlength : (Bits.ofBytes [method, flags]).length = 16 := by
        rw [Bits.length_ofBytes]
        rfl
      rw [after, initial_eq_standing, List.append_assoc, feedFully_element hreads hne,
        accept_header, hlength, feedFully_openBlocks hblocks, List.length_append, hlength]

theorem after_lastBlock {opening last padding : List Bool} {front content bytes : Bytes}
    (hopening : Format.OpenStream opening front)
    (hlast : Format.Block opening.length true front last content)
    (hpadding : padding.length < 8)
    (haligned : (opening.length + last.length + padding.length) % 8 = 0)
    (hlength : bytes.length = 4) (back : List Bool) :
    after (opening ++ last ++ padding ++ Bits.ofBytes bytes ++ back) =
      if bytes = ByteOrder.big.encode 4 (Format.checksum content) then
        ended (opening ++ last ++ padding ++ Bits.ofBytes bytes).length content
      else
        { ended (opening ++ last ++ padding ++ Bits.ofBytes bytes).length content with
          phase := .failed } := by
  have hposition : (opening ++ last ++ padding ++ Bits.ofBytes bytes).length =
      opening.length + last.length + (padding ++ Bits.ofBytes bytes).length := by
    simp only [List.length_append]
    omega
  have hreads : ∃ parts, (Place.reader (opening.length + last.length) .trailer).Reads
      (padding ++ Bits.ofBytes bytes) (.checksum (ByteOrder.big.decode bytes), parts) :=
    reads_trailer.mpr ⟨padding, bytes, rfl, Format.eq_padding hpadding haligned, hlength, rfl⟩
  have hne : padding ++ Bits.ofBytes bytes ≠ [] :=
    List.ne_nil_of_length_pos (by simp [Bits.length_ofBytes, hlength])
  rw [hposition, List.append_assoc, List.append_assoc, List.append_assoc,
    after_openStream hopening, feedFully_block hlast, Place.afterBlock, if_pos rfl,
    ← List.append_assoc padding, feedFully_element hreads hne, accept_checksum _ _ _ hlength]
  split
  · exact feedFully_of_isFinished rfl back
  · exact feedFully_of_hasFailed rfl back

theorem after_stream {stream content : Bytes}
    (hstream : Format.Stream stream content) (back : List Bool) :
    after (Bits.ofBytes stream ++ back) = ended (8 * stream.length) content := by
  cases hstream with
  | intro hopening hlast hpadding haligned hstream =>
      rw [← Bits.length_ofBytes, hstream,
        after_lastBlock hopening hlast hpadding haligned (ByteOrder.length_encode _ _ _),
        if_pos rfl]

/-!
## What bits begin with
-/

theorem element_or_pending {place : Place} {position : Nat}
    (hreader : ∀ element parts, ¬ (place.reader position).Reads [] (element, parts))
    (content : Bytes) (bits : List Bool) :
    (∃ front back element, bits = front ++ back ∧ front ≠ [] ∧
      (∃ parts, (place.reader position).Reads front (element, parts)) ∧
      (standing place position content).feedFully bits =
        ((standing place (position + front.length) content).accept
          element).settleFully.feedFully back) ∨
    ((standing place position content).feedFully bits).Pending content
      (∃ front, front <+: bits ∧ (place.reader position).Refuses front) := by
  rcases reads_or_pending place position content (fun read => hreader read.1 read.2) bits with
    ⟨front, back, ⟨element, parts⟩, hbits, hne, hreads⟩ | hpending
  · refine Or.inl ⟨front, back, element, hbits, hne, ⟨parts, hreads⟩, ?_⟩
    rw [hbits, feedFully_element ⟨parts, hreads⟩ hne]
  · exact Or.inr hpending

/-- What begins the rest of some bits begins all of them behind the others. -/
theorem prefix_behind {Fault : List Bool → Prop} {tokens back : List Bool} (front : List Bool)
    (hfault : ∃ fault, tokens ++ fault <+: back ∧ Fault fault) :
    ∃ fault, front ++ tokens ++ fault <+: front ++ back ∧ Fault fault := by
  rcases hfault with ⟨fault, hback, hfault⟩
  refine ⟨fault, ?_, hfault⟩
  rw [List.append_assoc]
  exact (List.prefix_append_right_inj _).mpr hback

theorem tokens_or_open {codes : Codes} {literals distances : List Nat}
    (hcodes : codes.Decode literals distances)
    (final : Bool) (position : Nat) (before : Bytes) (bits : List Bool) :
    (∃ tokens back after, bits = tokens ++ back ∧
      Format.Tokens literals distances before tokens after) ∨
    ∃ tokens after, tokens <+: bits ∧ Format.OpenTokens literals distances before tokens after ∧
      ((standing (.coded final codes) position before).feedFully bits).Pending after
        (∃ fault, tokens ++ fault <+: bits ∧ Format.TokenFault literals distances fault) := by
  -- Every element takes at least one bit.
  induction hlength : bits.length using Nat.strongRecOn generalizing bits before position with
  | ind length ih =>
      have hreader : ∀ element parts,
          ¬ (Place.reader position (.coded final codes)).Reads [] (element, parts) := by
        intro element parts hreads
        rcases (reads_coded hcodes).mp ⟨parts, hreads⟩ with ⟨token?, _, htoken⟩
        exact htoken.ne_nil rfl
      rcases element_or_pending hreader before bits with
        ⟨front, back, element, hbits, hne, hreads, hfeed⟩ | hpending
      · have hback : back.length < length := by
          have hpos := List.length_pos_iff.mpr hne
          rw [← hlength, hbits, List.length_append]
          omega
        rcases (reads_coded hcodes).mp hreads with ⟨token?, helement, htoken⟩
        rw [helement] at hfeed
        cases htoken with
        | stop hcode => exact Or.inl ⟨front, back, before, hbits, Format.Tokens.stop hcode⟩
        | @literal byte _ hcode =>
            rw [accept_token _ _ (before ++ [byte]) _ _ _ (by simp [Content.spell])] at hfeed
            rw [hfeed, hbits]
            rcases ih _ hback (position + front.length) (before ++ [byte]) back rfl with
              ⟨tokens, rest, after, hrest, htokens⟩ | ⟨tokens, after, hrest, htokens, hpending⟩
            · exact Or.inl ⟨front ++ tokens, rest, after, by rw [hrest, List.append_assoc],
                Format.Tokens.literal hcode htokens⟩
            · exact Or.inr ⟨front ++ tokens, after, (List.prefix_append_right_inj _).mpr hrest,
                Format.OpenTokens.literal hcode htokens, hpending.imp (prefix_behind front)⟩
        | @copy _ _ length distance _ _ _ _ hlengthCode hlength hdistanceCode hdistance =>
            have hrepeats : Format.Repeats length distance before
                (Content.copy before.toArray length distance).toList :=
              Content.repeats_copy before.toArray length distance hdistance.pos
            rw [accept_token _ _ _ _ _ _ rfl] at hfeed
            rw [hfeed, hbits]
            rcases ih _ hback _ _ back rfl with
              ⟨tokens, rest, after, hrest, htokens⟩ | ⟨tokens, after, hrest, htokens, hpending⟩
            · exact Or.inl ⟨_, rest, after, by rw [hrest, ← List.append_assoc],
                Format.Tokens.copy hlengthCode hlength hdistanceCode hdistance hrepeats htokens⟩
            · exact Or.inr ⟨_, after, (List.prefix_append_right_inj _).mpr hrest,
                Format.OpenTokens.copy hlengthCode hlength hdistanceCode hdistance hrepeats
                  htokens, hpending.imp (prefix_behind _)⟩
      · refine Or.inr ⟨[], before, List.nil_prefix, Format.OpenTokens.nil, hpending.imp ?_⟩
        intro h
        rcases h with ⟨fault, hfault, hrefuses⟩
        exact ⟨fault, hfault, (Format.refuses_coded hcodes).mp hrefuses⟩

theorem stored_or_open (final : Bool) (length position : Nat) (before : Bytes)
    (bits : List Bool) :
    (∃ bytes back, bits = Bits.ofBytes bytes ++ back ∧ bytes.length = length) ∨
    ∃ bytes, Bits.ofBytes bytes <+: bits ∧ bytes.length ≤ length ∧
      ((standing (.storing final length) position before).feedFully bits).Pending
        (before ++ bytes) False := by
  induction length generalizing position before bits with
  | zero => exact Or.inl ⟨[], bits, rfl, rfl⟩
  | succ length ih =>
      have hreader : ∀ element parts,
          ¬ (Place.reader position (.storing final (length + 1))).Reads [] (element, parts) := by
        intro element parts hreads
        rcases reads_stored.mp ⟨parts, hreads⟩ with ⟨byte, _, hbyte⟩
        exact absurd (congrArg List.length hbyte) (by simp)
      rcases element_or_pending hreader before bits with
        ⟨front, back, element, hbits, _, hreads, hfeed⟩ | hpending
      · rcases reads_stored.mp hreads with ⟨byte, helement, hbyte⟩
        rw [helement, Place.storing, accept_byte] at hfeed
        rw [Place.storing, hfeed, hbits, hbyte]
        rcases ih (position + front.length) (before ++ [byte]) back with
          ⟨bytes, rest, hback, hlength⟩ | ⟨bytes, hback, hlength, hpending⟩
        · refine Or.inl ⟨byte :: bytes, rest, ?_, by rw [List.length_cons, hlength]⟩
          rw [hback, Bits.ofBytes_cons, List.append_assoc]
        · refine Or.inr ⟨byte :: bytes, ?_, Nat.succ_le_succ hlength, ?_⟩
          · rw [Bits.ofBytes_cons]
            exact (List.prefix_append_right_inj _).mpr hback
          · rw [hbyte, List.append_assoc] at hpending
            exact hpending
      · refine Or.inr ⟨[], List.nil_prefix, Nat.zero_le _, ?_⟩
        rw [List.append_nil]
        refine hpending.imp ?_
        intro h
        rcases h with ⟨front, _, hrefuses⟩
        exact Format.not_refuses_stored hrefuses

theorem coded_or_open {position : Nat} {final : Bool} {opening : List Bool} {codes : Codes}
    {literals distances : List Nat}
    (hopening : Format.IsOpening position final opening (.coded codes))
    (hcodes : codes.Decode literals distances)
    (before : Bytes) (back : List Bool) :
    (∃ tokens rest after, opening ++ back = opening ++ tokens ++ rest ∧
      Format.Tokens literals distances before tokens after) ∨
    ∃ tokens after, opening ++ tokens <+: opening ++ back ∧
      Format.OpenTokens literals distances before tokens after ∧
      ((standing .block position before).feedFully (opening ++ back)).Pending after
        (∃ fault, opening ++ (tokens ++ fault) <+: opening ++ back ∧
          Format.TokenFault literals distances fault) := by
  rw [feedFully_codedOpening hopening]
  rcases tokens_or_open hcodes final (position + opening.length) before back with
    ⟨tokens, rest, after, hback, htokens⟩ | ⟨tokens, after, hback, htokens, hpending⟩
  · exact Or.inl ⟨tokens, rest, after, by rw [hback, List.append_assoc], htokens⟩
  · refine Or.inr ⟨tokens, after, (List.prefix_append_right_inj _).mpr hback, htokens,
      hpending.imp ?_⟩
    intro h
    rcases h with ⟨fault, hbegins, hfault⟩
    exact ⟨fault, (List.prefix_append_right_inj _).mpr hbegins, hfault⟩

theorem block_or_open (position : Nat) (before : Bytes) (bits : List Bool) :
    (∃ final block back after, bits = block ++ back ∧ block ≠ [] ∧
      Format.Block position final before block after) ∨
    ∃ front after, front <+: bits ∧ Format.OpenBlock position before front after ∧
      ((standing .block position before).feedFully bits).Pending after
        (∃ fault, fault <+: bits ∧ Format.BlockFault position before fault after) := by
  have hreader : ∀ element parts,
      ¬ (Place.reader position .block).Reads [] (element, parts) := by
    intro element parts hreads
    rcases reads_block.mp ⟨parts, hreads⟩ with ⟨final, body, _, hopening⟩
    exact hopening.ne_nil rfl
  rcases element_or_pending hreader before bits with
    ⟨front, back, element, hbits, _, hreads, hfeed⟩ | hpending
  · rcases reads_block.mp hreads with ⟨final, body, helement, hopening⟩
    rw [helement] at hfeed
    cases hopening with
    | @stored padding length hpadding haligned hlength =>
        rw [accept_storing] at hfeed
        rw [hfeed, hbits]
        rcases stored_or_open final length _ before back with
          ⟨bytes, rest, hback, hbytes⟩ | ⟨bytes, hback, hbytes, hpending⟩
        · subst hbytes
          exact Or.inl ⟨final, _, rest, _, by rw [hback, ← List.append_assoc], by simp,
            Format.Block.stored hpadding haligned hlength⟩
        · exact Or.inr ⟨_, _, (List.prefix_append_right_inj _).mpr hback,
            Format.OpenBlock.stored hpadding haligned hlength hbytes, hpending.imp False.elim⟩
    | fixed =>
        rw [hbits]
        rcases coded_or_open Format.IsOpening.fixed Format.fixed_decode before back with
          ⟨tokens, rest, after, hback, htokens⟩ | ⟨tokens, after, hback, htokens, hpending⟩
        · exact Or.inl ⟨final, _, rest, after, hback, by simp, Format.Block.fixed htokens⟩
        · refine Or.inr ⟨_, after, hback, Format.OpenBlock.fixed htokens, hpending.imp ?_⟩
          intro h
          rcases h with ⟨fault, hbegins, hfault⟩
          exact ⟨_, hbegins, Format.BlockFault.fixed htokens hfault⟩
    | described hdescribes hcodes =>
        rw [hbits]
        rcases coded_or_open (Format.IsOpening.described hdescribes hcodes)
            (decode_of_describes hdescribes hcodes) before back with
          ⟨tokens, rest, after, hback, htokens⟩ | ⟨tokens, after, hback, htokens, hpending⟩
        · exact Or.inl ⟨final, _, rest, after, hback, by simp,
            Format.Block.described hdescribes htokens⟩
        · refine Or.inr ⟨_, after, hback, Format.OpenBlock.described hdescribes htokens,
            hpending.imp ?_⟩
          intro h
          rcases h with ⟨fault, hbegins, hfault⟩
          exact ⟨_, hbegins, Format.BlockFault.described hdescribes htokens hfault⟩
  · refine Or.inr ⟨[], before, List.nil_prefix, Format.OpenBlock.nil, hpending.imp ?_⟩
    intro h
    rcases h with ⟨fault, hbegins, hrefuses⟩
    exact ⟨fault, hbegins, Format.BlockFault.opening (Format.refuses_block.mp hrefuses)⟩

theorem blocks_or_open (position : Nat) (before : Bytes) (bits : List Bool) :
    (∃ opening last back middle after, bits = opening ++ last ++ back ∧
      Format.OpenBlocks position before opening middle ∧
      Format.Block (position + opening.length) true middle last after) ∨
    ∃ opening front middle after, opening ++ front <+: bits ∧
      Format.OpenBlocks position before opening middle ∧
      Format.OpenBlock (position + opening.length) middle front after ∧
      ((standing .block position before).feedFully bits).Pending after
        (∃ fault, opening ++ fault <+: bits ∧
          Format.BlockFault (position + opening.length) middle fault after) := by
  induction hlength : bits.length using Nat.strongRecOn generalizing bits before position with
  | ind length ih =>
      rcases block_or_open position before bits with
        ⟨final, block, back, middle, hbits, hne, hblock⟩ | ⟨front, after, hfront, hopen, hpending⟩
      · cases final with
        | true =>
            exact Or.inl ⟨[], block, back, before, middle, hbits, Format.OpenBlocks.nil, hblock⟩
        | false =>
            have hback : back.length < length := by
              have hpos := List.length_pos_iff.mpr hne
              rw [← hlength, hbits, List.length_append]
              omega
            rw [hbits, feedFully_block hblock]
            rcases ih _ hback (position + block.length) middle back rfl with
              ⟨opening, last, rest, middle, after, hrest, hblocks, hlast⟩ |
                ⟨opening, front, middle, after, hrest, hblocks, hfront, hpending⟩
            · refine Or.inl ⟨block ++ opening, last, rest, middle, after, ?_,
                Format.OpenBlocks.cons hblock hblocks, ?_⟩
              · rw [hrest]
                simp only [List.append_assoc]
              · rw [List.length_append, ← Nat.add_assoc]
                exact hlast
            · refine Or.inr ⟨block ++ opening, front, middle, after, ?_,
                Format.OpenBlocks.cons hblock hblocks, ?_, ?_⟩
              · rw [List.append_assoc]
                exact (List.prefix_append_right_inj _).mpr hrest
              · rw [List.length_append, ← Nat.add_assoc]
                exact hfront
              · rw [List.length_append, ← Nat.add_assoc]
                exact hpending.imp (prefix_behind block)
      · exact Or.inr ⟨[], front, before, after, hfront, Format.OpenBlocks.nil, hopen, hpending⟩

theorem stream_or_open (bits : List Bool) :
    (∃ opening last back front content, bits = opening ++ last ++ back ∧
      Format.OpenStream opening front ∧ Format.Block opening.length true front last content) ∨
    ∃ front content, front <+: bits ∧ Format.Spells front content ∧
      (after bits).Pending content (∃ fault, fault <+: bits ∧ Format.Malformed fault content) := by
  have hreader : ∀ element parts,
      ¬ (Place.reader 0 .start).Reads [] (element, parts) := by
    intro element parts hreads
    rcases reads_start.mp ⟨parts, hreads⟩ with ⟨_, method, flags, _, hbytes⟩
    exact absurd (congrArg List.length hbytes) (by simp)
  rw [after, initial_eq_standing]
  rcases element_or_pending hreader [] bits with
    ⟨header, back, element, hbits, _, hreads, hfeed⟩ | hpending
  · rcases reads_start.mp hreads with ⟨helement, method, flags, hheader, hbytes⟩
    have hlength : header.length = 16 := by
      rw [hbytes, Bits.length_ofBytes]
      rfl
    rw [helement, accept_header, hlength] at hfeed
    rw [hfeed, hbits]
    rcases blocks_or_open (0 + 16) [] back with
      ⟨blocks, last, rest, front, content, hback, hblocks, hlast⟩ |
        ⟨blocks, front, middle, content, hback, hblocks, hfront, hpending⟩
    · refine Or.inl ⟨header ++ blocks, last, rest, front, content, ?_, ?_, ?_⟩
      · rw [hback]
        simp only [List.append_assoc]
      · rw [hbytes]
        exact Format.OpenStream.intro hheader hblocks
      · rw [List.length_append, hlength]
        exact hlast
    · have hopening : Format.OpenStream (header ++ blocks) middle := by
        rw [hbytes]
        exact Format.OpenStream.intro hheader hblocks
      rw [Nat.zero_add, ← hlength, ← List.length_append] at hfront
      refine Or.inr ⟨header ++ blocks ++ front, content, ?_, Format.Spells.block hopening hfront,
        hpending.imp ?_⟩
      · rw [List.append_assoc]
        exact (List.prefix_append_right_inj _).mpr hback
      · intro h
        rcases prefix_behind header h with ⟨fault, hbegins, hfault⟩
        rw [Nat.zero_add, ← hlength, ← List.length_append] at hfault
        exact ⟨_, hbegins, Format.Malformed.block hopening hfault⟩
  · refine Or.inr ⟨[], [], List.nil_prefix, Format.Spells.nil, hpending.imp ?_⟩
    intro h
    rcases h with ⟨front, hbegins, hrefuses⟩
    rcases Format.refuses_start.mp hrefuses with ⟨method, flags, hheader, hfront⟩
    rw [hfront] at hbegins
    exact ⟨_, hbegins, Format.Malformed.header hheader⟩

/--
What follows the last block adds nothing; it is the checksum where it leads to the end, and
any other four bytes where it fails.
-/
theorem feedFully_trailer (position : Nat) (content : Bytes) (bits : List Bool) :
    ((standing .trailer position content).feedFully bits).content.toList = content ∧
    (((standing .trailer position content).feedFully bits).isFinished = true →
      ∃ padding back, padding.length < 8 ∧ (position + padding.length) % 8 = 0 ∧
        bits = padding ++ Bits.ofBytes (ByteOrder.big.encode 4 (Format.checksum content)) ++
          back) ∧
    (((standing .trailer position content).feedFully bits).hasFailed = true →
      ∃ padding bytes back, padding.length < 8 ∧ (position + padding.length) % 8 = 0 ∧
        bytes.length = 4 ∧ bytes ≠ ByteOrder.big.encode 4 (Format.checksum content) ∧
        bits = padding ++ Bits.ofBytes bytes ++ back) := by
  have hreader : ∀ element parts,
      ¬ (Place.reader position .trailer).Reads [] (element, parts) := by
    intro element parts hreads
    rcases reads_trailer.mp ⟨parts, hreads⟩ with ⟨filling, sum, hbits, _, hsum, _⟩
    have hlength := congrArg List.length hbits
    rw [List.length_append, Bits.length_ofBytes, hsum, List.length_nil] at hlength
    omega
  rcases element_or_pending hreader content bits with
    ⟨trailer, back, element, hbits, _, hreads, hfeed⟩ | hpending
  · rcases reads_trailer.mp hreads with ⟨padding, sum, htrailer, hpadding, hsum, helement⟩
    have hsmall : padding.length < 8 := by
      rw [hpadding]
      exact Format.padding_lt _
    have haligned : (position + padding.length) % 8 = 0 := by
      rw [hpadding]
      exact Format.aligned_padding _
    rw [helement, accept_checksum _ _ _ hsum] at hfeed
    rw [hfeed]
    split
    · rename_i hchecksum
      rw [feedFully_of_isFinished rfl]
      refine ⟨rfl, fun _ => ⟨padding, back, hsmall, haligned, ?_⟩,
        fun hfailed => Bool.noConfusion hfailed⟩
      rw [hbits, htrailer, hchecksum]
    · rename_i hwrong
      rw [feedFully_of_hasFailed rfl]
      refine ⟨rfl, fun hfinished => Bool.noConfusion hfinished,
        fun _ => ⟨padding, sum, back, hsmall, haligned, hsum, hwrong, ?_⟩⟩
      rw [hbits, htrailer]
  · refine ⟨hpending.content_eq, ?_, ?_⟩
    · intro hfinished
      rw [hpending.not_isFinished] at hfinished
      exact Bool.noConfusion hfinished
    · intro hfailed
      rcases hpending.reason_of_hasFailed hfailed with ⟨front, _, hrefuses⟩
      exact absurd hrefuses Format.not_refuses_trailer

theorem stream_of_isFinished {bytes : Bytes}
    (hfinished : (after (Bits.ofBytes bytes)).isFinished = true) :
    ∃ stream rest content, bytes = stream ++ rest ∧ Format.Stream stream content := by
  rcases stream_or_open (Bits.ofBytes bytes) with
    ⟨opening, last, back, front, content, hbits, hopening, hlast⟩ | ⟨_, content, _, _, hpending⟩
  · rw [hbits, List.append_assoc, after_openStream hopening, feedFully_block hlast,
      Place.afterBlock, if_pos rfl] at hfinished
    rcases (feedFully_trailer _ _ _).right.left hfinished with
      ⟨padding, rest, hsmall, haligned, hback⟩
    have hchecksum := ByteOrder.length_encode .big 4 (Format.checksum content)
    have hsplit : Bits.ofBytes bytes = (opening ++ last ++ padding ++
        Bits.ofBytes (ByteOrder.big.encode 4 (Format.checksum content))) ++ rest := by
      rw [hbits, hback]
      simp only [List.append_assoc]
    have hboundary : (opening ++ last ++ padding ++
        Bits.ofBytes (ByteOrder.big.encode 4 (Format.checksum content))).length % 8 = 0 := by
      simp only [List.length_append, Bits.length_ofBytes]
      omega
    rcases Bits.split_ofBytes hsplit hboundary with ⟨stream, others, hbytes, hstream, _⟩
    exact ⟨stream, others, content, hbytes,
      Format.Stream.intro hopening hlast hsmall haligned hstream⟩
  · rw [hpending.not_isFinished] at hfinished
    exact Bool.noConfusion hfinished

/-- Reading in full reaches an end with this content exactly after streams of this content. -/
theorem isFinished_iff_stream {bytes content : Bytes} :
    (after (Bits.ofBytes bytes)).isFinished = true ∧
        (after (Bits.ofBytes bytes)).content.toList = content ↔
      ∃ stream rest, bytes = stream ++ rest ∧ Format.Stream stream content := by
  constructor
  · intro h
    rcases stream_of_isFinished h.left with ⟨stream, rest, content', hbytes, hstream⟩
    have hcontent := h.right
    rw [hbytes, Bits.ofBytes_append, after_stream hstream] at hcontent
    have hsame : content' = content := hcontent
    rw [← hsame]
    exact ⟨stream, rest, hbytes, hstream⟩
  · intro h
    rcases h with ⟨stream, rest, hbytes, hstream⟩
    rw [hbytes, Bits.ofBytes_append, after_stream hstream]
    exact ⟨rfl, rfl⟩

/-!
## What fails
-/

theorem feedFully_blockFault {position : Nat} {before after : Bytes} {fault : List Bool}
    (hfault : Format.BlockFault position before fault after) (back : List Bool) :
    ((standing .block position before).feedFully (fault ++ back)).hasFailed = true ∧
      ((standing .block position before).feedFully (fault ++ back)).content.toList = after := by
  cases hfault with
  | opening hfault =>
      exact feedFully_of_refuses _ _ _ (Format.refuses_block.mpr hfault) hfault.ne_nil back
  | @fixed final _ _ tokens fault htokens hfault =>
      rw [List.append_assoc, feedFully_codedOpening Format.IsOpening.fixed, List.append_assoc,
        feedFully_openTokens Format.fixed_decode htokens]
      exact feedFully_of_refuses _ _ _ ((Format.refuses_coded Format.fixed_decode).mpr hfault)
        hfault.ne_nil back
  | @described final _ _ literals distances description tokens fault hdescribes htokens hfault =>
      rcases hdescribes.exists_codes with ⟨codes, hcodes⟩
      have hdecode := decode_of_describes hdescribes hcodes
      rw [List.append_assoc,
        feedFully_codedOpening (Format.IsOpening.described hdescribes hcodes), List.append_assoc,
        feedFully_openTokens hdecode htokens]
      exact feedFully_of_refuses _ _ _ ((Format.refuses_coded hdecode).mpr hfault)
        hfault.ne_nil back

theorem after_malformed {fault : List Bool} {content : Bytes}
    (hfault : Format.Malformed fault content) (back : List Bool) :
    (after (fault ++ back)).hasFailed = true ∧
      (after (fault ++ back)).content.toList = content := by
  cases hfault with
  | @header method flags hheader =>
      have hne : Bits.ofBytes [method, flags] ≠ [] := List.ne_nil_of_length_pos (by simp)
      exact feedFully_of_refuses .start 0 []
        (Format.refuses_start.mpr ⟨method, flags, hheader, rfl⟩) hne back
  | block hopening hfault =>
      rw [List.append_assoc, after_openStream hopening]
      exact feedFully_blockFault hfault back
  | checksum hopening hlast hpadding haligned hbytes hwrong =>
      rw [after_lastBlock hopening hlast hpadding haligned hbytes, if_neg hwrong]
      exact ⟨rfl, rfl⟩

/-- Reading in full fails with this content exactly if malformed bits of this content are read. -/
theorem hasFailed_iff_malformed {bits : List Bool} {content : Bytes} :
    (after bits).hasFailed = true ∧ (after bits).content.toList = content ↔
      ∃ fault, fault <+: bits ∧ Format.Malformed fault content := by
  constructor
  · intro h
    rcases h with ⟨hfailed, hcontent⟩
    rcases stream_or_open bits with
      ⟨opening, last, back, front, whole, hbits, hopening, hlast⟩ | ⟨_, spelled, _, _, hpending⟩
    · rw [hbits, List.append_assoc, after_openStream hopening, feedFully_block hlast,
        Place.afterBlock, if_pos rfl] at hfailed hcontent
      rcases feedFully_trailer (opening.length + last.length) whole back with
        ⟨hwhole, _, htrailer⟩
      rcases htrailer hfailed with
        ⟨padding, bytes, rest, hpadding, haligned, hbytes, hwrong, hback⟩
      rw [← hcontent, hwhole]
      refine ⟨_, ⟨rest, ?_⟩, .checksum hopening hlast hpadding haligned hbytes hwrong⟩
      rw [hbits, hback]
      simp only [List.append_assoc]
    · rw [← hcontent, hpending.content_eq]
      exact hpending.reason_of_hasFailed hfailed
  · intro h
    rcases h with ⟨fault, ⟨back, hbits⟩, hfault⟩
    rw [← hbits]
    exact after_malformed hfault back

/-- Reading in full neither ends nor fails exactly on bytes that are cut off. -/
theorem isCutOff_iff {bytes : Bytes} :
    Format.IsCutOff bytes ↔
      (after (Bits.ofBytes bytes)).isFinished = false ∧
        (after (Bits.ofBytes bytes)).hasFailed = false := by
  rw [Bool.eq_false_iff, Bool.eq_false_iff]
  constructor
  · intro hcut
    constructor
    · intro hfinished
      rcases stream_of_isFinished hfinished with ⟨stream, rest, content, hbytes, hstream⟩
      exact hcut.no_stream ⟨stream, rest, content, hbytes, hstream⟩
    · intro hfailed
      rcases hasFailed_iff_malformed.mp ⟨hfailed, rfl⟩ with ⟨fault, hbegins, hfault⟩
      exact hcut.not_malformed ⟨fault, _, hbegins, hfault⟩
  · intro h
    constructor
    · intro hstream
      rcases hstream with ⟨stream, rest, content, hbytes, hstream⟩
      exact h.left (isFinished_iff_stream.mpr ⟨stream, rest, hbytes, hstream⟩).left
    · intro hmalformed
      rcases hmalformed with ⟨fault, content, hbegins, hfault⟩
      exact h.right (hasFailed_iff_malformed.mpr ⟨fault, hbegins, hfault⟩).left

end Inflater
end BoundedZlib
