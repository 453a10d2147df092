import Splice.Action
import Splice.Value.Equality

/-!
# `Splice.Catalogue.Logic` — comparison, choice and truth values

Every function of the catalogue takes the number of its arguments and answers with an action; the
first thing it does is to check that number.

## Contents
- `equality`, `nullity`, `comparison`: tests of one or two values.
- `choose`: the first of several values whose condition is true.
- `negate`, `either`, `both`: truth values.
-/

namespace Splice.Catalogue

open Splice.Action

/-- Whether the first two arguments are equal, or whether they are not, as `expected` says. -/
def equality (b : Builtin) (expected : Bool) (found : Nat) : Action Value := do
  expect b.name (.atLeast 2) found
  let left ← read 0
  let right ← read 1
  return .boolean (left.equal right == expected)

/-- Whether the argument is null, or whether it is not, as `expected` says. A missing argument is
null. -/
def nullity (b : Builtin) (expected : Bool) (found : Nat) : Action Value := do
  expect b.name (.atMost 1) found
  let v ← read 0
  return .boolean (v.isNull == expected)

/-- Whether two numbers compare as `holds` says. What is no number compares with nothing. -/
def comparison (b : Builtin) (holds : Float → Float → Bool) (found : Nat) : Action Value := do
  expect b.name (.exactly 2) found
  let left ← read 0
  let right ← read 1
  match left.float?, right.float? with
  | some x, some y => return .boolean (holds x y)
  | _, _ => return .boolean false

/-- The choice among the `n` arguments from a position on: pairs of a condition and a value, and
perhaps a last value without a condition. -/
def chooseFrom (position : Nat) : (n : Nat) → Action Value
  | 0 => return .null
  | 1 => read position
  | n + 2 => do
    let condition ← read position
    if condition.bool? = some true then read (position + 1) else chooseFrom (position + 2) n

/-- The value behind the first condition that is true, else the value without a condition, else
null. Nothing behind a true condition but its own value is evaluated. -/
def choose (found : Nat) : Action Value := do
  expect Builtin.choose.name (.atLeast 2) found
  chooseFrom 0 found

/-- The other truth value; null for what is none. -/
def negate (found : Nat) : Action Value := do
  expect Builtin.not.name (.exactly 1) found
  let v ← read 0
  return match v.bool? with
    | some b => .boolean !b
    | none => .null

/-- Whether one of two truth values is true; of other values, the first that is not null. Both are
evaluated. -/
def either (found : Nat) : Action Value := do
  expect Builtin.or.name (.exactly 2) found
  let left ← read 0
  let right ← read 1
  return match left, right with
    | .boolean l, .boolean r => .boolean (l || r)
    | .null, right => right
    | left, _ => left

/-- Whether two truth values are true; null for other values. Both are evaluated. -/
def both (found : Nat) : Action Value := do
  expect Builtin.and.name (.exactly 2) found
  let left ← read 0
  let right ← read 1
  return match left, right with
    | .boolean l, .boolean r => .boolean (l && r)
    | _, _ => .null

end Splice.Catalogue
