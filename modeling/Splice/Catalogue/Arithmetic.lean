import Splice.Action
import Splice.Value.Display

/-!
# `Splice.Catalogue.Arithmetic` — calculation with floats

All calculation is done with floats, and integers are turned into floats for it. Only roundings give
integers.

## Contents
- `sum`, `product`: any number of arguments.
- `difference`, `quotient`, `remainder`: two arguments.
- `rounding`, `magnitude`, `clamp`: roundings, absolute values and limits.
-/

namespace Splice.Catalogue

open Splice.Action

/-- The sum of the arguments; what is no number counts as zero. -/
def sum (found : Nat) : Action Value := do
  let vs ← readAll found
  return .float (vs.foldl (fun total v => total + v.float?.getD 0.0) 0.0)

/-- The product of the arguments; what is no number counts as one. -/
def product (found : Nat) : Action Value := do
  let vs ← readAll found
  return .float (vs.foldl (fun total v => total * v.float?.getD 1.0) 1.0)

/-- The first two arguments, which must be numbers. -/
def operands (b : Builtin) (found : Nat) : Action (Float × Float) := do
  expect b.name (.atLeast 2) found
  let left ← read 0
  let right ← read 1
  match left.float?, right.float? with
  | some x, some y => return (x, y)
  | _, _ => fail (.invalidArgument b.name (.operandsNotNumbers left.display right.display))

/-- The first argument without the second. -/
def difference (found : Nat) : Action Value := do
  let (x, y) ← operands .diff found
  return .float (x - y)

/-- The first argument divided by the second, which must not be zero. -/
def quotient (found : Nat) : Action Value := do
  let (x, y) ← operands .divide found
  if y == 0.0 then fail .divisionByZero else return .float (x / y)

/-- What is left of a division that truncates; null for what are no numbers. -/
def remainder (found : Nat) : Action Value := do
  expect Builtin.modulo.name (.exactly 2) found
  let left ← read 0
  let right ← read 1
  match left.float?, right.float? with
  | some x, some y => return .float (Decimal.remainder x y)
  | _, _ => return .null

/-- The 64-bit integer nearest to the rounding of a number. Infinities go to the ends of the
range, and what is no number to zero. -/
def nearestInt64 (round? : Float → Option Int) (x : Float) : Int64 :=
  match Decimal.shape x with
  | .nan => 0
  | .infinite negative => if negative then Int64.minValue else Int64.maxValue
  | .finite .. => Decimal.clampInt64 ((round? x).getD 0)

/-- The argument rounded to an integer; null for what is no number. -/
def rounding (b : Builtin) (round? : Float → Option Int) (found : Nat) : Action Value := do
  expect b.name (.exactly 1) found
  let v ← read 0
  return match v.float? with
    | some x => .integer (nearestInt64 round? x)
    | none => .null

/-- The argument without its sign; null for what is no number. -/
def magnitude (found : Nat) : Action Value := do
  expect Builtin.abs.name (.exactly 1) found
  let v ← read 0
  return match v.float? with
    | some x => .float x.abs
    | none => .null

/-- The number nearest to `x` between `low` and `high`; what is no number stays as it is. -/
def limited (x low high : Float) : Float :=
  let atLeast := if x < low then low else x
  if high < atLeast then high else atLeast

/-- The first argument kept between the other two; null if one of them is no number. There must be
something between the two. -/
def clamp (found : Nat) : Action Value := do
  expect Builtin.clamp.name (.exactly 3) found
  let v ← read 0
  let low ← read 1
  let high ← read 2
  match v.float?, low.float?, high.float? with
  | some x, some low, some high =>
    if low ≤ high then return .float (limited x low high)
    else fail (.invalidArgument Builtin.clamp.name (.emptyRange low high))
  | _, _, _ => return .null

end Splice.Catalogue
