/-!
# `Splice.Builtin` — the builtin functions

## Contents
- `Builtin`: the builtin functions, each one function however many names it has.
- `Builtin.name`, `Builtin.aliases`, `Builtin.arity`: how each is known.
- `Builtin.all`: the catalogue in the order in which names are bound.
-/

namespace Splice

/-- A builtin function. -/
inductive Builtin where
  -- logic
  | isEqual | isNotEqual | isNull | isNotNull | choose | gt | gte | lt | lte | not | or | and
  -- arithmetic
  | sum | multiply | diff | divide | modulo | ceil | floor | abs | clamp
  -- text
  | concat | substring
  -- structured data and dates
  | jsonGet | isoFormat
  -- lists
  | contains | elementAt | firstElement | lastElement | skip | take | reversed
  -- numbers, sizes and query strings
  | numberFormat | toInt | isEmpty | length | qsEncode
  deriving DecidableEq, Repr

namespace Builtin

/-- The name of a function in messages, under which it is also bound. -/
def name : Builtin → String
  | isEqual => "isEqual"
  | isNotEqual => "isNotEqual"
  | isNull => "isNull"
  | isNotNull => "isNotNull"
  | choose => "if"
  | gt => "gt"
  | gte => "gte"
  | lt => "lt"
  | lte => "lte"
  | not => "not"
  | or => "or"
  | and => "and"
  | sum => "sum"
  | multiply => "multiply"
  | diff => "diff"
  | divide => "divide"
  | modulo => "modulo"
  | ceil => "ceil"
  | floor => "floor"
  | abs => "abs"
  | clamp => "clamp"
  | concat => "concat"
  | substring => "substring"
  | jsonGet => "jsonGet"
  | isoFormat => "isoFormat"
  | contains => "contains"
  | elementAt => "elementAt"
  | firstElement => "firstElement"
  | lastElement => "lastElement"
  | skip => "skip"
  | take => "take"
  | reversed => "reversed"
  | numberFormat => "numberFormat"
  | toInt => "toInt"
  | isEmpty => "isEmpty"
  | length => "length"
  | qsEncode => "qsEncode"

/-- The other names under which a function is bound. -/
def aliases : Builtin → List String
  | isEqual => ["eq"]
  | isNotEqual => ["neq"]
  | choose => ["condition"]
  | multiply => ["mul"]
  | diff => ["difference"]
  | concat => ["concatenate"]
  | jsonGet => ["get"]
  | length => ["strLength"]
  | _ => []

/-- The arity that stands for any number of arguments. -/
def anyArity : Nat := 255

/-- The number of arguments that a function is meant to take. -/
def arity : Builtin → Nat
  | choose | sum | multiply | concat => anyArity
  | clamp => 3
  | isNull | isNotNull | not | ceil | floor | abs | firstElement | lastElement | reversed | toInt
  | isEmpty | length | qsEncode => 1
  | isEqual | isNotEqual | gt | gte | lt | lte | or | and | diff | divide | modulo | substring
  | jsonGet | isoFormat | contains | elementAt | skip | take | numberFormat => 2

/-- The catalogue. -/
def all : List Builtin :=
  [isEqual, isNotEqual, isNull, isNotNull, choose, gt, gte, lt, lte, not, or, and,
    sum, multiply, diff, divide, modulo, ceil, floor, abs, clamp,
    concat, substring, jsonGet, isoFormat,
    contains, elementAt, firstElement, lastElement, skip, take, reversed,
    numberFormat, toInt, isEmpty, length, qsEncode]

/-- No builtin function is missing from the catalogue. -/
theorem mem_all (b : Builtin) : b ∈ all := by
  cases b <;> decide

end Builtin

end Splice
