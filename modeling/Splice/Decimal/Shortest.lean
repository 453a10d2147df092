import Splice.Decimal.Exact

/-!
# `Splice.Decimal.Shortest` — the fewest digits that read back

A finite float other than zero is the nearest float to every number of an interval around it. Of the
decimals in that interval the one with the fewest digits is chosen, of two such the nearer one, and
of two equally near ones the larger.

## Contents
- `Digits`: decimal digits and the place of the point among them.
- `comparePowers`: compares `c · 10 ^ -p` with `x · 2 ^ q` in natural numbers.
- `readsBack`: a decimal lies in the interval of the floats' rounding.
- `shortest`: the chosen decimal.
-/

namespace Splice.Decimal

/-- The number `0.d₁d₂… · 10 ^ point`. -/
structure Digits where
  digits : List Char
  point : Int
  deriving DecidableEq, Repr

/-- The decimal digits of `n`, the most significant first. -/
def digitsOf (n : Nat) : List Char := Nat.toDigits 10 n

/-- The number `n · 10 ^ -places`, without trailing zeros. -/
def Digits.ofScaled (n : Nat) (places : Int) : Digits :=
  let ds := digitsOf n
  { digits := (ds.reverse.dropWhile (· == '0')).reverse, point := ds.length - places }

/-- The least `k` with `num / den < 10 ^ k`, both being positive. -/
def magnitude (num den : Nat) : Int :=
  if den ≤ num then (digitsOf (num / den)).length
  else 1 - (digitsOf ((den - 1) / num)).length

/-- Compares `c · 10 ^ -p` with `x · 2 ^ q`. -/
def comparePowers (c : Nat) (p : Int) (x : Nat) (q : Int) : Ordering :=
  compare (c * Nat.pow 10 (-p).toNat * denominator q) (numerator x q * Nat.pow 10 p.toNat)

/-- The quarters of a unit of `m` below `m · 2 ^ e` that still round to it: half a unit, but only a
quarter where the floats below lie twice as close. -/
def quartersBelow (m : Nat) (e : Int) : Nat := if m = Nat.pow 2 52 ∧ -1074 < e then 1 else 2

/-- `c · 10 ^ -p` rounds to the float `m · 2 ^ e`; an end of the interval does if `m` is even. -/
def readsBack (m : Nat) (e : Int) (c : Nat) (p : Int) : Bool :=
  let above := comparePowers c p (4 * m - quartersBelow m e) (e - 2)
  let below := comparePowers c p (4 * m + 2) (e - 2)
  let even := m % 2 == 0
  (above == .gt || (even && above == .eq)) && (below == .lt || (even && below == .eq))

/-- The decimal with `p` places nearest to `m · 2 ^ e` among those that read back, if there is one:
only the two neighbours of the number can be. -/
def withPlaces? (m : Nat) (e : Int) (p : Int) : Option Nat :=
  let c := numerator m e * Nat.pow 10 p.toNat / (denominator e * Nat.pow 10 (-p).toNat)
  match readsBack m e c p, readsBack m e (c + 1) p with
  | true, true => if comparePowers (2 * c + 1) p (2 * m) e == .gt then some c else some (c + 1)
  | true, false => some c
  | false, true => some (c + 1)
  | false, false => none

/-- Tries `count`, `count + 1`, … digits, at most `tries` times more; seventeen digits always do. -/
def search (m : Nat) (e : Int) (k : Int) : (tries : Nat) → (count : Nat) → Digits
  | 0, count => Digits.ofScaled ((withPlaces? m e (count - k)).getD 0) (count - k)
  | tries + 1, count =>
    match withPlaces? m e (count - k) with
    | some c => Digits.ofScaled c (count - k)
    | none => search m e k tries (count + 1)

/-- The fewest digits that read back as `m · 2 ^ e`; zero has the single digit 0. -/
def shortest (m : Nat) (e : Int) : Digits :=
  if m = 0 then { digits := ['0'], point := 1 }
  else search m e (magnitude (numerator m e) (denominator e)) 16 1

end Splice.Decimal
