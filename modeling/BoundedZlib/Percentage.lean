/-!
# Percentages

How much space compression saves, in percent with one decimal.  The share is
computed in doubles and its exact value is rounded to the nearest tenth, a tie
to the even one.
-/

namespace BoundedZlib

/-- The nearest whole number to a quotient; a tie goes to the even one. -/
def roundDivEven (num den : Nat) : Nat :=
  let quotient := num / den
  let twice := 2 * (num % den)
  if twice < den then quotient
  else if den < twice then quotient + 1
  else quotient + quotient % 2

/-- The result is at most half a unit away. -/
theorem roundDivEven_near (num den : Nat)
    (pos : 0 < den) :
    2 * num ≤ den * (2 * roundDivEven num den + 1) ∧
      den * (2 * roundDivEven num den) ≤ 2 * num + den := by
  have whole := Nat.div_add_mod num den
  have small := Nat.mod_lt num pos
  have parts : den * (2 * (num / den)) = 2 * (den * (num / den)) := Nat.mul_left_comm ..
  have next : den * (2 * (num / den + 1)) = 2 * (den * (num / den)) + 2 * den := by
    rw [Nat.mul_left_comm, Nat.mul_add, Nat.mul_one, Nat.mul_add]
  unfold roundDivEven
  dsimp only
  split
  · rw [Nat.mul_add, Nat.mul_one, parts]
    omega
  · split
    · rw [Nat.mul_add, Nat.mul_one, next]
      omega
    · rcases Nat.mod_two_eq_zero_or_one (num / den) with even | odd
      · simp only [even, Nat.add_zero, Nat.mul_add den, Nat.mul_one, parts]
        omega
      · simp only [odd, Nat.mul_add den, Nat.mul_one, next]
        omega

/-- The exact value of a finite double: a sign and a quotient. -/
structure ExactValue where
  negative : Bool
  num : Nat
  den : Nat
deriving Repr, DecidableEq

namespace ExactValue

def ofBits (bits : Nat) : ExactValue :=
  let negative := bits >>> 63 == 1
  let exponent := (bits >>> 52) % (1 <<< 11)
  let fraction := bits % (1 <<< 52)
  let significand := if exponent = 0 then fraction else fraction + (1 <<< 52)
  let power := max exponent 1
  if 1075 ≤ power then
    ⟨negative, significand <<< (power - 1075), 1⟩
  else
    ⟨negative, significand, 1 <<< (1075 - power)⟩

/-- A value with one decimal; the sign is kept where the digits are zero. -/
def oneDecimal (value : ExactValue) : String :=
  let tenths := roundDivEven (10 * value.num) value.den
  let sign := if value.negative then "-" else ""
  s!"{sign}{tenths / 10}.{tenths % 10}"

end ExactValue

def sizeToFloat (size : Nat) : Float :=
  (UInt64.ofNat size).toFloat

/-- The share of a plain size that compression saves, in percent; of nothing there is no
share. -/
def savedPercentage (plain compressed : Nat) : String :=
  if plain = 0 then
    "-"
  else
    let saved := (1.0 - sizeToFloat compressed / sizeToFloat plain) * 100.0
    (ExactValue.ofBits saved.toBits.toNat).oneDecimal ++ "%"

end BoundedZlib
