import Splice.Decimal.Shortest

/-!
# `Splice.Decimal.Places` — a fixed number of decimal places

The exact value of a float, rounded once to a given number of places; a half goes to the even
neighbour.

## Contents
- `divideToEven`: the integer nearest to a quotient.
- `Places`: the digits before and after the point.
- `places`: a finite float with a given number of places.
-/

namespace Splice.Decimal

/-- The integer nearest to `num / den`, of two equally near ones the even one. -/
def divideToEven (num den : Nat) : Nat :=
  let q := num / den
  match compare (2 * (num % den)) den with
  | .lt => q
  | .gt => q + 1
  | .eq => q + q % 2

/-- The digits before and after a decimal point. -/
structure Places where
  integer : List Char
  fraction : List Char
  deriving DecidableEq, Repr

/-- Splits the digits of `n` so that `count` of them stand after the point and at least one before
it. -/
def Places.ofScaled (n count : Nat) : Places :=
  let ds := digitsOf n
  let padded := List.replicate (count + 1 - ds.length) '0' ++ ds
  { integer := padded.take (padded.length - count)
    fraction := padded.drop (padded.length - count) }

/-- The number `m · 2 ^ e` with `count` decimal places. -/
def places (count m : Nat) (e : Int) : Places :=
  Places.ofScaled (divideToEven (numerator m e * Nat.pow 10 count) (denominator e)) count

/-- Exactly `count` digits stand after the point. -/
theorem Places.fraction_length (n count : Nat) :
    (Places.ofScaled n count).fraction.length = count := by
  simp only [Places.ofScaled, List.length_drop, List.length_append, List.length_replicate]
  omega

/-- The digits before the point are never empty. -/
theorem Places.integer_length_pos (n count : Nat) :
    0 < (Places.ofScaled n count).integer.length := by
  simp only [Places.ofScaled, List.length_take, List.length_append, List.length_replicate]
  omega

end Splice.Decimal
