import Splice.Action
import Splice.Value.Display

/-!
# `Splice.Catalogue.Text` — joining and cutting texts

## Contents
- `concat`: the arguments joined to one text.
- `cut?`, `substring`: a part of a text, counted in characters.
-/

namespace Splice.Catalogue

open Splice.Action

/-- The arguments as they are displayed, joined to one text. -/
def concat (found : Nat) : Action Value := do
  let vs ← readAll found
  return .text (String.join (vs.map Value.display))

/-- The characters from `start` up to `stop`, if these are places of the text in this order. -/
def cut? (cs : List Char) (start stop : Int64) : Option (List Char) :=
  if start.toInt < 0 ∨ (cs.length : Int) < stop.toInt ∨ stop.toInt < start.toInt then none
  else some ((cs.take stop.toInt.toNat).drop start.toInt.toNat)

/-- The part of a text from one place to another, or to its end. A text without a place stays whole,
and a place without a text gives null. -/
def substring (found : Nat) : Action Value := do
  expect Builtin.substring.name (.atLeast 2) found
  let source ← read 0
  let start ← read 1
  let stop ← read 2
  match source.text?, start.int64? with
  | source, none => return .ofOption (source.map .text)
  | none, some _ => return .null
  | some source, some start =>
    let cs := source.toList
    let stop := stop.int64?.getD (Int64.ofNat cs.length)
    match cut? cs start stop with
    | some part => return .text (String.ofList part)
    | none => fail (.invalidArgument Builtin.substring.name (.outOfBounds start stop cs.length))

end Splice.Catalogue
