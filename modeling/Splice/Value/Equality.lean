import Splice.Value

/-!
# `Splice.Value.Equality` — when two values are equal

Numbers are compared by value across their two types, lists item by item, and maps without regard to
the order of their keys. Functions, classes, instances and deferred trees are equal only to
themselves.

## Contents
- `Value.equal`: the comparison.
-/

namespace Splice.Value

mutual

/-- The two values are equal. -/
def equal : Value → Value → Bool
  | null, null => true
  | boolean a, boolean b => a == b
  | integer a, integer b => a == b
  | integer a, float y => Decimal.ofInt a.toInt == y
  | float x, integer b => x == Decimal.ofInt b.toInt
  | float x, float y => x == y
  | text s, text t => s == t
  | list xs, list ys => equalItems xs ys
  | map xs, map ys => xs.length == ys.length && equalEntries xs ys
  | function f, function g => f.same g
  | ofClass i _ _ _, ofClass j _ _ _ => i == j
  | object i _ _ _, object j _ _ _ => i == j
  | deferred i _, deferred j _ => i == j
  | _, _ => false

/-- The two lists have equal values at the same places, and no others. -/
def equalItems : List Value → List Value → Bool
  | [], [] => true
  | x :: xs, y :: ys => equal x y && equalItems xs ys
  | _, _ => false

/-- The second table has an equal value under every key of the first. -/
def equalEntries : List (String × Value) → List (String × Value) → Bool
  | [], _ => true
  | (key, x) :: xs, ys =>
    (match ys.lookup key with
      | some y => equal x y
      | none => false) && equalEntries xs ys

end

end Splice.Value
