/-!
# `Splice.Decimal.Exact` — the exact value of a float

A finite float is a whole number times a power of two. Everything that turns floats into text or
into integers starts from that pair and computes in integers, so nothing is rounded twice.

## Contents
- `Shape`, `shape`: not a number, an infinity, or `± significand · 2 ^ exponent`.
- `numerator`, `denominator`: the number `significand · 2 ^ exponent` as a fraction.
- `truncated`, `isWhole`: the integer part, and whether there is nothing else.
- `floor?`, `ceil?`, `truncate?`: the roundings to an integer, absent off the finite floats.
- `clampInt64`: the nearest 64-bit integer to an integer.
- `ofInt`, `ofDyadic`: the nearest float to an integer, or to a whole number times a power of two.
- `remainder`: what is left of a division that truncates, with the sign of the dividend.
-/

namespace Splice.Decimal

open Float.Model (UnpackedFloat)

/-- What a float stands for. Both zeros are finite with significand 0. -/
inductive Shape where
  /-- Not a number. -/
  | nan
  /-- An infinity. -/
  | infinite (negative : Bool)
  /-- The number `± significand · 2 ^ exponent`. -/
  | finite (negative : Bool) (significand : Nat) (exponent : Int)
  deriving DecidableEq, Repr

/-- The shape of an unpacked float. -/
def shapeOf : UnpackedFloat → Shape
  | .notANumber => .nan
  | .infinity .negative => .infinite true
  | .infinity .positive => .infinite false
  | .zero .negative => .finite true 0 0
  | .zero .positive => .finite false 0 0
  | .finite .negative m e _ => .finite true m e
  | .finite .positive m e _ => .finite false m e

/-- The shape of `x`. -/
def shape (x : Float) : Shape := shapeOf x.toModel.unpack

/-! ## Fractions and integer parts -/

/-- The numerator of `m · 2 ^ e` as a fraction with `denominator e`. -/
def numerator (m : Nat) (e : Int) : Nat := m * Nat.pow 2 e.toNat

/-- The denominator of the fraction: the power of two that `e` asks to divide by. -/
def denominator (e : Int) : Nat := Nat.pow 2 (-e).toNat

/-- The integer part of `m · 2 ^ e`. -/
def truncated (m : Nat) (e : Int) : Nat := numerator m e / denominator e

/-- `m · 2 ^ e` is an integer. -/
def isWhole (m : Nat) (e : Int) : Bool := numerator m e % denominator e == 0

/-- `n` with a minus sign if `negative`. -/
def signed (negative : Bool) (n : Nat) : Int := if negative then -n else n

/-- The largest integer that is at most `x`. -/
def floor? (x : Float) : Option Int :=
  match shape x with
  | .finite negative m e =>
    some (signed negative (truncated m e + if negative && !isWhole m e then 1 else 0))
  | _ => none

/-- The least integer that is at least `x`. -/
def ceil? (x : Float) : Option Int :=
  match shape x with
  | .finite negative m e =>
    some (signed negative (truncated m e + if !negative && !isWhole m e then 1 else 0))
  | _ => none

/-- `x` without its fraction. -/
def truncate? (x : Float) : Option Int :=
  match shape x with
  | .finite negative m e => some (signed negative (truncated m e))
  | _ => none

/-- `x` as an integer, if it is finite and has no fraction. -/
def whole? (x : Float) : Option Int :=
  match shape x with
  | .finite negative m e => if isWhole m e then some (signed negative (truncated m e)) else none
  | _ => none

/-- The 64-bit integer nearest to `n`. -/
def clampInt64 (n : Int) : Int64 :=
  Int64.ofInt (max Int64.minValue.toInt (min Int64.maxValue.toInt n))

/-! ## Floats from integers -/

/-- What is no number. -/
def nan : Float := .ofModel (.pack .notANumber)

/-- The float nearest to `n`, of two equally near ones the one with the even significand. -/
def ofInt (n : Int) : Float := .ofModel (.ofInt n)

/-- The float nearest to `± m · 2 ^ e`. -/
def ofDyadic (negative : Bool) (m : Nat) (e : Int) : Float :=
  let sign : UnpackedFloat.Sign := if negative then .negative else .positive
  .ofModel (.pack (if m = 0 then .zero sign else UnpackedFloat.round .binary64 sign m e))

/-- `x - n · y` for the integer `n` that is `x / y` without its fraction; no number if `x` is
infinite or `y` is zero. The result is exact and has the sign of `x`. -/
def remainder (x y : Float) : Float :=
  match shape x, shape y with
  | .finite negative m e, .finite _ m' e' =>
    if m' = 0 then nan
    else
      let low := min e e'
      ofDyadic negative (numerator m (e - low) % numerator m' (e' - low)) low
  | .finite .., .infinite _ => x
  | _, _ => nan

end Splice.Decimal
