import Splice.Node.Print
import Splice.Value

/-!
# `Splice.Value.Display` — values as text

## Contents
- `Value.display`: a value as it stands in a template or an answer.
- `Value.detail`: a value as a developer sees it, with texts quoted and trees in full.
-/

namespace Splice.Value

mutual

/-- The value as it stands in a template. -/
def display : Value → String
  | null => "null"
  | boolean b => if b then "true" else "false"
  | integer i => toString i.toInt
  | float x => Decimal.Layout.shown.write x
  | text s => s
  | list items => "[" ++ ", ".intercalate (displayItems items) ++ "]"
  | map entries => "\x7b" ++ ", ".intercalate (displayEntries entries) ++ "\x7d"
  | function f => "<fn " ++ f.name ++ ">"
  | ofClass _ name _ _ => name
  | object _ className _ _ => className ++ " instance"
  | deferred _ _ => "<expression>"

/-- The text of each value. -/
def displayItems : List Value → List String
  | [] => []
  | item :: items => display item :: displayItems items

/-- The text of each key and its value. -/
def displayEntries : List (String × Value) → List String
  | [] => []
  | (key, value) :: entries => (key ++ "=" ++ display value) :: displayEntries entries

end

mutual

/-- The value as a developer sees it. -/
def detail : Value → String
  | text s => Text.quote s
  | list items => Text.listed (detailItems items)
  | map entries => Text.tabled (detailEntries entries)
  | deferred _ node => Text.applied "Deferred" node.detail
  | value => display value

/-- The description of each value. -/
def detailItems : List Value → List String
  | [] => []
  | item :: items => detail item :: detailItems items

/-- Each key with the description of its value. -/
def detailEntries : List (String × Value) → List (String × String)
  | [] => []
  | (key, value) :: entries => (key, detail value) :: detailEntries entries

end

end Splice.Value
