import Splice.Action
import Splice.Value.Equality

/-!
# `Splice.Catalogue.Lists` — lists and their items

## Contents
- `position?`: an integer as a position in a list.
- `contains`, `itemAt`, `first`, `last`: items.
- `part`, `reversed`: lists made of the items of a list.
-/

namespace Splice.Catalogue

open Splice.Action

/-- An integer as a position in a list; negative ones are none. -/
def position? (i : Int64) : Option Nat := if i.toInt < 0 then none else some i.toInt.toNat

/-- Whether a list has an item that equals a value. What is no list has no items. -/
def contains (found : Nat) : Action Value := do
  expect Builtin.contains.name (.exactly 2) found
  let items ← read 0
  let v ← read 1
  return .boolean ((items.list?.getD []).any fun item => item.equal v)

/-- The item of a list at a position; null if there is none. -/
def itemAt (found : Nat) : Action Value := do
  expect Builtin.elementAt.name (.exactly 2) found
  let items ← read 0
  let position ← read 1
  match items.list?, position.int64?.bind position? with
  | some items, some i => return .ofOption items[i]?
  | _, _ => return .null

/-- The first item of a list; null if there is none. -/
def first (found : Nat) : Action Value := do
  expect Builtin.firstElement.name (.exactly 1) found
  let items ← read 0
  return .ofOption (items.list?.bind List.head?)

/-- The last item of a list; null if there is none. -/
def last (found : Nat) : Action Value := do
  expect Builtin.lastElement.name (.exactly 1) found
  let items ← read 0
  return .ofOption (items.list?.bind List.getLast?)

/-- The part of a list that a number of items leaves; null for what is no list, whose number is not
evaluated. What is no number counts as zero. -/
def part (b : Builtin) (leave : Nat → List Value → List Value) (found : Nat) : Action Value := do
  expect b.name (.exactly 2) found
  let items ← read 0
  match items.list? with
  | none => return .null
  | some items =>
    let count ← read 1
    let count := count.int64?.getD 0
    match position? count with
    | some n => return .list (leave n items)
    | none => fail (.invalidArgument b.name (.negativeCount count))

/-- A list from its end to its start; null for what is no list. -/
def reversed (found : Nat) : Action Value := do
  expect Builtin.reversed.name (.exactly 1) found
  let items ← read 0
  return match items.list? with
    | some items => .list items.reverse
    | none => .null

end Splice.Catalogue
