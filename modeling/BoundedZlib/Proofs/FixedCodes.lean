import BoundedZlib.Proofs.ReadingBlocks

/-!
# Writing in the fixed codes

The encoder computes the fixed code of a symbol, and the symbol of a length or a
distance, without building a tree or a table.  What it computes is what the
format determines.
-/

namespace BoundedZlib
namespace Format

open CodeTree (order)

/-!
## Symbols in a row

Symbols of equal code length that follow each other have codes that follow each
other.
-/

def row (width first count : Nat) : List (Nat × Nat) :=
  (List.range count).map fun i => (width, first + i)

theorem row_split (width first : Nat) {count i : Nat} (hi : i < count) :
    row width first count =
      row width first i ++ (width, first + i) :: row width (first + i + 1) (count - i - 1) := by
  have hcount : count = i + (count - i - 1 + 1) := by omega
  conv => lhs; rw [row, hcount, List.range_add, List.range_succ_eq_map]
  simp [row, Function.comp_def, Nat.add_assoc, Nat.add_comm 1]

theorem entrySpace_row (width first count : Nat) :
    entrySpace (row width first count) = count * 2 ^ (CodeTree.maxLength - width) := by
  rw [entrySpace, row, List.map_map]
  show ((List.range count).map fun _ => 2 ^ (CodeTree.maxLength - width)).sum = _
  rw [List.map_const', List.length_range, List.sum_replicate_nat]

section Row

variable {lengths : List Nat} {front back : List (Nat × Nat)} {width first count value i : Nat}

theorem codeValue_of_row
    (horder : order lengths = front ++ row width first count ++ back)
    (hfront : entrySpace front = value * 2 ^ (CodeTree.maxLength - width))
    (hi : i < count) :
    codeValue lengths (first + i) = value + i := by
  have hsplit : order lengths = (front ++ row width first i) ++ (width, first + i) ::
      (row width (first + i + 1) (count - i - 1) ++ back) := by
    rw [horder, row_split width first hi]
    simp
  have hspace := CodeTree.entrySpace_front hsplit
  rw [entrySpace_append, hfront, entrySpace_row, ← Nat.add_mul] at hspace
  exact (Nat.eq_of_mul_eq_mul_right (Nat.two_pow_pos _) hspace).symm

theorem isCode_of_row
    (horder : order lengths = front ++ row width first count ++ back)
    (hfront : entrySpace front = value * 2 ^ (CodeTree.maxLength - width))
    (hroom : value + count ≤ 2 ^ width)
    (hi : i < count) :
    IsCode lengths (first + i) (Bits.ofNat width (value + i)).reverse := by
  have hentry : (width, first + i) ∈ order lengths := by
    rw [horder, row_split width first hi]
    simp
  rcases CodeTree.mem_order_iff.mp hentry with ⟨hpos, _, _, hlength⟩
  refine ⟨?_, ?_, ?_⟩
  · rw [List.length_reverse, Bits.length_ofNat]
    exact hpos
  · rw [List.length_reverse, Bits.length_ofNat, hlength]
  · rw [List.reverse_reverse, Bits.toNat_ofNat, codeValue_of_row horder hfront hi]
    exact Nat.mod_eq_of_lt (by omega)

end Row

/-!
## The fixed codes
-/

theorem order_fixedLiterals :
    order fixedLiterals = row 7 256 24 ++ row 8 0 144 ++ row 8 280 8 ++ row 9 144 112 := by
  decide +kernel

theorem order_fixedDistances : order fixedDistances = row 5 0 32 := by
  decide +kernel

theorem fixedLiteral_eq {width code symbol : Nat}
    (hentry : (if symbol < 144 then (8, symbol + 48) else if symbol < 256 then (9, symbol + 256)
      else if symbol < 280 then (7, symbol - 256) else (8, symbol - 88)) = (width, code)) :
    Codes.fixedLiteral symbol = (Bits.ofNat width code).reverse := by
  rw [Codes.fixedLiteral, hentry]

theorem isCode_fixedLiteral {symbol : Nat} (hsymbol : symbol < 288) :
    IsCode fixedLiterals symbol (Codes.fixedLiteral symbol) := by
  have horder := order_fixedLiterals
  have hrows : (∃ i, i < 144 ∧ symbol = 0 + i) ∨ (∃ i, i < 112 ∧ symbol = 144 + i) ∨
      (∃ i, i < 24 ∧ symbol = 256 + i) ∨ ∃ i, i < 8 ∧ symbol = 280 + i := by
    rcases Nat.lt_or_ge symbol 144 with hlt | hge
    · exact Or.inl ⟨symbol, hlt, (Nat.zero_add symbol).symm⟩
    · rcases Nat.lt_or_ge symbol 256 with hlt | hge
      · exact Or.inr (Or.inl ⟨symbol - 144, by omega, by omega⟩)
      · rcases Nat.lt_or_ge symbol 280 with hlt | hge
        · exact Or.inr (Or.inr (Or.inl ⟨symbol - 256, by omega, by omega⟩))
        · exact Or.inr (Or.inr (Or.inr ⟨symbol - 280, by omega, by omega⟩))
  rcases hrows with ⟨i, hi, hrow⟩ | ⟨i, hi, hrow⟩ | ⟨i, hi, hrow⟩ | ⟨i, hi, hrow⟩
  · have hspace : entrySpace (row 7 256 24) = 48 * 2 ^ (CodeTree.maxLength - 8) :=
      entrySpace_row 7 256 24
    have hcode : Codes.fixedLiteral symbol = (Bits.ofNat 8 (48 + i)).reverse :=
      fixedLiteral_eq (by grind)
    rw [List.append_assoc] at horder
    rw [hcode, hrow]
    exact isCode_of_row horder hspace (by decide) hi
  · have hspace : entrySpace (row 7 256 24 ++ row 8 0 144 ++ row 8 280 8) =
        400 * 2 ^ (CodeTree.maxLength - 9) := by
      simp only [entrySpace_append, entrySpace_row]
      decide
    have hcode : Codes.fixedLiteral symbol = (Bits.ofNat 9 (400 + i)).reverse :=
      fixedLiteral_eq (by grind)
    rw [← List.append_nil (_ ++ row 9 144 112)] at horder
    rw [hcode, hrow]
    exact isCode_of_row horder hspace (by decide) hi
  · have hspace : entrySpace [] = 0 * 2 ^ (CodeTree.maxLength - 7) := rfl
    have hcode : Codes.fixedLiteral symbol = (Bits.ofNat 7 (0 + i)).reverse :=
      fixedLiteral_eq (by grind)
    rw [List.append_assoc, List.append_assoc, ← List.nil_append (row 7 256 24)] at horder
    rw [hcode, hrow]
    exact isCode_of_row horder hspace (by decide) hi
  · have hspace : entrySpace (row 7 256 24 ++ row 8 0 144) =
        192 * 2 ^ (CodeTree.maxLength - 8) := by
      simp only [entrySpace_append, entrySpace_row]
      decide
    have hcode : Codes.fixedLiteral symbol = (Bits.ofNat 8 (192 + i)).reverse :=
      fixedLiteral_eq (by grind)
    rw [hcode, hrow]
    exact isCode_of_row horder hspace (by decide) hi

theorem isCode_fixedDistance {symbol : Nat} (hsymbol : symbol < 32) :
    IsCode fixedDistances symbol (Codes.fixedDistance symbol) := by
  have horder : order fixedDistances = [] ++ row 5 0 32 ++ [] := by
    rw [order_fixedDistances, List.nil_append, List.append_nil]
  have hspace : entrySpace [] = 0 * 2 ^ (CodeTree.maxLength - 5) := rfl
  have hrow := isCode_of_row horder hspace (by decide) hsymbol
  rw [Nat.zero_add] at hrow
  exact hrow

/-!
## Values with extra bits
-/

end Format

namespace ValueRange

theorem locate_eq (value : Nat) (ranges : List ValueRange) {first : ValueRange}
    (hfirst : ranges[0]? = some first)
    (hleast : first.least ≤ value)
    (index : Nat) (best : Nat × ValueRange) :
    ∃ place range, locate value index best ranges = (index + place, range) ∧
      ranges[place]? = some range ∧ range.least ≤ value ∧
      ∀ next, ranges[place + 1]? = some next → value < next.least := by
  induction ranges generalizing first index best with
  | nil => cases hfirst
  | cons range rest ih =>
      have hrange : first = range := (Option.some.inj hfirst).symm
      subst hrange
      rw [locate, if_pos hleast]
      rcases hnext : rest[0]? with _ | next
      · have hrest : rest = [] := by simpa using hnext
        subst hrest
        refine ⟨0, first, rfl, rfl, hleast, ?_⟩
        intro next hnone
        cases hnone
      · by_cases hlater : next.least ≤ value
        · rcases ih hnext hlater (index + 1) (index, first) with
            ⟨place, range, hlocate, hplace, hrange⟩
          refine ⟨place + 1, range, ?_, hplace, hrange⟩
          rw [hlocate, Nat.add_assoc, Nat.add_comm 1]
        · refine ⟨0, first, ?_, rfl, hleast, ?_⟩
          · cases rest with
            | nil => cases hnext
            | cons range rest =>
                rw [Option.some.inj hnext, locate, if_neg hlater]
                rfl
          · intro next' hnext'
            have hsame : rest[0]? = some next' := hnext'
            rw [hnext] at hsame
            rw [← Option.some.inj hsame]
            exact Nat.lt_of_not_le hlater

end ValueRange

namespace Format

theorem isValue_encode {ranges : List ValueRange} {last : Nat} {base extra : Nat → Nat}
    (hranges : ranges = (List.range (last + 1)).map fun index => ⟨base index, extra index⟩)
    (hgroups : ∀ index, index < last → base (index + 1) ≤ base index + 2 ^ extra index)
    {value : Nat}
    (hleast : base 0 ≤ value)
    (hmost : value < base last + 2 ^ extra last) :
    IsValue (last + 1) base extra (ValueRange.encode ranges value).1
      (ValueRange.encode ranges value).2 value := by
  have hget (place : Nat) : ranges[place]? =
      if place < last + 1 then some ⟨base place, extra place⟩ else none := by
    rw [hranges, List.getElem?_map]
    split
    next hlt =>
      rw [List.getElem?_range hlt]
      rfl
    next hge =>
      rw [List.getElem?_eq_none (by simpa using hge)]
      rfl
  have hfirst : ranges[0]? = some ⟨base 0, extra 0⟩ := hget 0
  rcases ValueRange.locate_eq value ranges hfirst hleast 0 (0, ⟨0, 0⟩) with
    ⟨place, range, hlocate, hplace, hrange, hnext⟩
  rw [hget] at hplace
  split at hplace
  next hlt =>
    have hentry := Option.some.inj hplace
    subst hentry
    have hupper : value < base place + 2 ^ extra place := by
      rcases Nat.lt_or_eq_of_le (Nat.le_of_lt_succ hlt) with hinner | hlast
      · apply Nat.lt_of_lt_of_le _ (hgroups place hinner)
        apply hnext ⟨base (place + 1), extra (place + 1)⟩
        rw [hget, if_pos (Nat.succ_lt_succ hinner)]
      · rw [hlast]
        exact hmost
    rw [ValueRange.encode, hlocate, Nat.zero_add]
    refine ⟨hlt, Bits.length_ofNat _ _, ?_⟩
    have hrange' : base place ≤ value := hrange
    show value = base place + Bits.toNat (Bits.ofNat (extra place) (value - base place))
    rw [Bits.toNat_ofNat, Nat.mod_eq_of_lt (by omega)]
    omega
  · cases hplace

theorem isLength_encode {length : Nat} (hleast : Token.minLength ≤ length)
    (hmost : length ≤ Token.maxCopy) :
    IsLength (ValueRange.encode ValueRange.lengths length).1
      (ValueRange.encode ValueRange.lengths length).2 length :=
  isValue_encode lengths_eq (by decide) hleast (Nat.lt_succ_of_le hmost)

theorem isDistance_encode {distance : Nat} (hleast : 1 ≤ distance)
    (hmost : distance ≤ Token.maxDistance) :
    IsDistance (ValueRange.encode ValueRange.distances distance).1
      (ValueRange.encode ValueRange.distances distance).2 distance :=
  isValue_encode distances_eq (by decide) hleast (Nat.lt_succ_of_le hmost)

end Format
end BoundedZlib
