import BoundedZlib.Proofs.Format

/-!
# Faults

Which input is malformed.  A fault is what cannot stand in a stream: a bit that begins
no code, a symbol without a meaning, lengths that make no code.  Malformed input begins
with what a stream may begin with, and a fault behind it; the bits of a fault reach as
far as it takes to see it.  Input that is not malformed and does not begin with a
stream is merely cut off.
-/

namespace BoundedZlib
namespace Format

/-!
## Tokens
-/

/-- A bit with which no code begins.  Only codes of one bit leave any unassigned. -/
def IsUnassigned (lengths : List Nat) (bits : List Bool) : Prop :=
  bits.length = 1 ∧ ∀ symbol code, IsCode lengths symbol code → ¬ bits <+: code

/-- Bits in place of a token: an unassigned code, or a symbol that stands for no value. -/
inductive TokenFault (literals distances : List Nat) : List Bool → Prop where
  | literal {bits : List Bool}
      (hbits : IsUnassigned literals bits) :
      TokenFault literals distances bits
  | length {lengthIndex : Nat} {code : List Bool}
      (hcode : IsCode literals (257 + lengthIndex) code)
      (hindex : 29 ≤ lengthIndex) :
      TokenFault literals distances code
  | unassigned {lengthIndex length : Nat} {lengthCode lengthMore bits : List Bool}
      (hlengthCode : IsCode literals (257 + lengthIndex) lengthCode)
      (hlength : IsLength lengthIndex lengthMore length)
      (hbits : IsUnassigned distances bits) :
      TokenFault literals distances (lengthCode ++ lengthMore ++ bits)
  | distance {lengthIndex distanceIndex length : Nat}
      {lengthCode lengthMore distanceCode : List Bool}
      (hlengthCode : IsCode literals (257 + lengthIndex) lengthCode)
      (hlength : IsLength lengthIndex lengthMore length)
      (hdistanceCode : IsCode distances distanceIndex distanceCode)
      (hindex : 30 ≤ distanceIndex) :
      TokenFault literals distances (lengthCode ++ lengthMore ++ distanceCode)

theorem TokenFault.ne_nil {literals distances : List Nat} {bits : List Bool}
    (hfault : TokenFault literals distances bits) :
    bits ≠ [] := by
  cases hfault with
  | literal hbits => exact List.ne_nil_of_length_eq_add_one hbits.left
  | length hcode _ => exact List.ne_nil_of_length_pos hcode.left
  | unassigned _ _ hbits =>
      exact List.append_ne_nil_of_right_ne_nil _ (List.ne_nil_of_length_eq_add_one hbits.left)
  | distance _ _ hcode _ =>
      exact List.append_ne_nil_of_right_ne_nil _ (List.ne_nil_of_length_pos hcode.left)

/-!
## Descriptions of codes
-/

/-- The bits tell how many code lengths there are, and in which code they are written. -/
inductive DescriptionHead (literals distances : Nat) (describing : List Nat) :
    List Bool → Prop where
  | intro {given : List Nat}
      (hliterals : 257 ≤ literals ∧ literals ≤ 286)
      (hdistances : 1 ≤ distances ∧ distances ≤ 30)
      (hcount : 4 ≤ given.length ∧ given.length ≤ 19)
      (hgiven : ∀ length ∈ given, length < 2 ^ 3)
      (hdescribing : IsDescribing given describing) :
      DescriptionHead literals distances describing
        (Bits.ofNat 5 (literals - 257) ++ Bits.ofNat 5 (distances - 1) ++
          Bits.ofNat 4 (given.length - 4) ++ given.flatMap (Bits.ofNat 3))

/-- Bits in place of a run: nothing is there to repeat, or the run goes past the total. -/
inductive RunFault (describing : List Nat) (total : Nat) (lengths : List Nat) :
    List Bool → Prop where
  | previous {code : List Bool}
      (hlengths : lengths = [])
      (hcode : IsCode describing 16 code) :
      RunFault describing total lengths code
  | past {count length : Nat} {run : List Bool}
      (hrun : Run describing lengths.getLast? run count length)
      (hpast : total < lengths.length + count) :
      RunFault describing total lengths run

inductive DescriptionFault : List Bool → Prop where
  | counts {literals distances given : Nat}
      (hliterals : 257 ≤ literals ∧ literals < 257 + 2 ^ 5)
      (hdistances : 1 ≤ distances ∧ distances < 1 + 2 ^ 5)
      (hgiven : 4 ≤ given ∧ given < 4 + 2 ^ 4)
      (hmany : 286 < literals ∨ 30 < distances) :
      DescriptionFault
        (Bits.ofNat 5 (literals - 257) ++ Bits.ofNat 5 (distances - 1) ++ Bits.ofNat 4 (given - 4))
  | describing {literals distances : Nat} {describing : List Nat} {head : List Bool}
      (hhead : DescriptionHead literals distances describing head)
      (hincomplete : ¬ IsComplete describing) :
      DescriptionFault head
  | run {literals distances : Nat} {describing lengths : List Nat} {head runs fault : List Bool}
      (hhead : DescriptionHead literals distances describing head)
      (hcomplete : IsComplete describing)
      (hruns : Runs describing [] runs lengths)
      (hfewer : lengths.length < literals + distances)
      (hfault : RunFault describing (literals + distances) lengths fault) :
      DescriptionFault (head ++ (runs ++ fault))
  | codes {literals distances describing : List Nat} {head runs : List Bool}
      (hhead : DescriptionHead literals.length distances.length describing head)
      (hcomplete : IsComplete describing)
      (hruns : Runs describing [] runs (literals ++ distances))
      (hunusable : ¬ (IsUsable literals ∧ IsUsable distances)) :
      DescriptionFault (head ++ runs)

/-!
## Blocks and streams
-/

inductive OpeningFault (position : Nat) : List Bool → Prop where
  | kind {final : Bool} : OpeningFault position [final, true, true]
  | stored {final : Bool} {padding : List Bool} {length complement : Nat}
      (hpadding : padding.length < 8)
      (haligned : (position + 3 + padding.length) % 8 = 0)
      (hlength : length < 2 ^ 16)
      (hcomplement : complement < 2 ^ 16)
      (hsum : length + complement ≠ 65535) :
      OpeningFault position
        ([final, false, false] ++ padding ++ Bits.ofNat 16 length ++ Bits.ofNat 16 complement)
  | described {final : Bool} {fault : List Bool}
      (hfault : DescriptionFault fault) :
      OpeningFault position ([final, false, true] ++ fault)

theorem OpeningFault.ne_nil {position : Nat} {bits : List Bool}
    (hfault : OpeningFault position bits) :
    bits ≠ [] := by
  cases hfault with
  | kind => exact List.cons_ne_nil _ _
  | stored => simp
  | described => exact List.cons_ne_nil _ _

/-- The bits of a block up to a fault, with the content before them and what they spell. -/
inductive BlockFault (position : Nat) : Bytes → List Bool → Bytes → Prop where
  | opening {content : Bytes} {fault : List Bool}
      (hfault : OpeningFault position fault) :
      BlockFault position content fault content
  | fixed {final : Bool} {before after : Bytes} {tokens fault : List Bool}
      (htokens : OpenTokens fixedLiterals fixedDistances before tokens after)
      (hfault : TokenFault fixedLiterals fixedDistances fault) :
      BlockFault position before ([final, true, false] ++ (tokens ++ fault)) after
  | described {final : Bool} {before after : Bytes} {literals distances : List Nat}
      {description tokens fault : List Bool}
      (hdescribes : Describes literals distances description)
      (htokens : OpenTokens literals distances before tokens after)
      (hfault : TokenFault literals distances fault) :
      BlockFault position before
        ([final, false, true] ++ description ++ (tokens ++ fault)) after

/-- The bits are malformed, all of them showing it, and spell this content. -/
inductive Malformed : List Bool → Bytes → Prop where
  | header {method flags : UInt8}
      (hheader : ¬ IsHeader method flags) :
      Malformed (Bits.ofBytes [method, flags]) []
  | block {opening fault : List Bool} {before content : Bytes}
      (hopening : OpenStream opening before)
      (hfault : BlockFault opening.length before fault content) :
      Malformed (opening ++ fault) content
  | checksum {opening last padding : List Bool} {front content bytes : Bytes}
      (hopening : OpenStream opening front)
      (hlast : Block opening.length true front last content)
      (hpadding : padding.length < 8)
      (haligned : (opening.length + last.length + padding.length) % 8 = 0)
      (hbytes : bytes.length = 4)
      (hwrong : bytes ≠ ByteOrder.big.encode 4 (checksum content)) :
      Malformed (opening ++ last ++ padding ++ Bits.ofBytes bytes) content

/-- The bytes do not begin with a stream and are not malformed either. -/
structure IsCutOff (bytes : Bytes) : Prop where
  no_stream : ¬ ∃ stream rest content, bytes = stream ++ rest ∧ Stream stream content
  not_malformed : ¬ ∃ fault content, fault <+: Bits.ofBytes bytes ∧ Malformed fault content

end Format
end BoundedZlib
