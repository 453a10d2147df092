import Splice.Action
import Splice.Calendar.Pattern
import Splice.Json.Reading
import Splice.Path
import Splice.Query

/-!
# `Splice.Catalogue.Data` — structured data, dates and query strings

## Contents
- `dataAt`: the value at the end of a path.
- `formatInstant`: a timestamp written after a pattern.
- `queryString`: a map as a query string.
-/

namespace Splice.Catalogue

open Splice.Action

/-- The data that a path starts from: a text is read as structured data, and other values are data
already. Null is none. -/
def root? : Value → Option Value
  | .null => none
  | .text source =>
    match Json.read source with
    | .ok json => some (.ofJson json)
    | .error _ => none
  | v => some v

/-- The value that a path leads to from the first argument; null if it leads nowhere. -/
def dataAt (found : Nat) : Action Value := do
  expect Builtin.jsonGet.name (.atLeast 2) found
  let source ← read 0
  let path ← read 1
  match path.text?, root? source with
  | some path, some root => return .ofOption (Path.lookup root path)
  | _, _ => return .null

/-- A timestamp written after a pattern; null if there is no such instant. -/
def formatInstant (found : Nat) : Action Value := do
  expect Builtin.isoFormat.name (.atLeast 2) found
  let timestamp ← read 0
  let pattern ← read 1
  match timestamp.text?, pattern.text? with
  | some timestamp, some pattern =>
    return .ofOption ((Calendar.formatTimestamp timestamp pattern).map .text)
  | _, _ => return .null

/-- A map as a query string; null for what is no map. -/
def queryString (found : Nat) : Action Value := do
  expect Builtin.qsEncode.name (.exactly 1) found
  let v ← read 0
  return match v.map? with
    | some entries => .text (Query.encode entries)
    | none => .null

end Splice.Catalogue
