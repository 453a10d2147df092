import Splice.Action
import Splice.NumberPattern

/-!
# `Splice.Catalogue.Conversion` — numbers as text, text as numbers, and sizes

## Contents
- `formatNumber`: a number written after a pattern.
- `toInteger?`, `integer`: numbers and texts as integers.
- `isEmpty`, `size?`, `length`: what is empty, and how long it is.
-/

namespace Splice.Catalogue

open Splice.Action

/-- A number written after a pattern, or after the default one. With more than two arguments the
answer is a remark, and nothing is evaluated. -/
def formatNumber (found : Nat) : Action Value := do
  if 2 < found then return .text "Incorrect argument size"
  let v ← read 0
  match v.float? with
  | none => fail (.invalidArgument Builtin.numberFormat.name .notANumber)
  | some x =>
    let pattern ← read 1
    let pattern := (pattern.text?.map String.toList).getD NumberPattern.default
    return .text ((NumberPattern.ofChars pattern).format x)

/-- A float without its fraction, at the nearest end of the range if it is too large; absent for
what is not finite. -/
def truncated? (x : Float) : Option Int64 := (Decimal.truncate? x).map Decimal.clampInt64

/-- The integer that a text stands for: hexadecimal digits behind `0x`, or a float. -/
def integerOfChars? : List Char → Option Int64
  | '0' :: 'x' :: digits => Decimal.readInt64? 16 digits
  | cs => (Decimal.readFloat? cs).bind truncated?

/-- A number or a text as an integer. -/
def toInteger? : Value → Option Int64
  | .text source => integerOfChars? source.toList
  | .integer i => some i
  | .float x => truncated? x
  | _ => none

/-- The argument as an integer; null for what cannot be one. -/
def integer (found : Nat) : Action Value := do
  expect Builtin.toInt.name (.exactly 1) found
  let v ← read 0
  return .ofOption ((toInteger? v).map .integer)

/-- Null, zero, true, and texts, lists and maps without content are empty. -/
def isEmptyValue : Value → Bool
  | .null => true
  | .integer i => i == 0
  | .float x => x == 0.0
  | .boolean b => b
  | .text source => source.isEmpty
  | .list items => items.isEmpty
  | .map entries => entries.isEmpty
  | _ => false

/-- Whether the argument is empty. -/
def isEmpty (found : Nat) : Action Value := do
  expect Builtin.isEmpty.name (.exactly 1) found
  let v ← read 0
  return .boolean (isEmptyValue v)

/-- The number of characters of a text, of items of a list or of entries of a map. -/
def size? : Value → Option Nat
  | .text source => some source.length
  | .list items => some items.length
  | .map entries => some entries.length
  | _ => none

/-- The size of the argument; null for what has none. -/
def length (found : Nat) : Action Value := do
  expect Builtin.length.name (.exactly 1) found
  let v ← read 0
  return .ofOption ((size? v).map fun n => .integer (Int64.ofNat n))

end Splice.Catalogue
