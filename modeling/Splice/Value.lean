import Splice.Builtin
import Splice.Decimal.Reading
import Splice.Json
import Splice.Node
import Splice.Table

/-!
# `Splice.Value` — values

The values that expressions work on. Functions, classes, instances and deferred trees are told apart
by identity, a number that the host gives to each when it makes it.

## Contents
- `Function`: a builtin function, or a reference to one of the host.
- `Value`, `Value.typeName`: values and the names of their types.
- `Value.bool?`, `Value.float?`, `Value.int64?`, …: what a value is, seen as one type.
- `Class`, `Instance`: the host's types and the objects made from them.
- `Value.ofJson`: structured data as a value.
-/

namespace Splice

/-- A function: a builtin one, or the one of the host with this identity. -/
inductive Function where
  | builtin (function : Builtin)
  | host (identity : Nat) (name : String) (arity : Nat)
  deriving DecidableEq, Repr

namespace Function

/-- The name of a function. -/
def name : Function → String
  | builtin b => b.name
  | host _ name _ => name

/-- The number of arguments that a function is meant to take. -/
def arity : Function → Nat
  | builtin b => b.arity
  | host _ _ arity => arity

/-- The two are one and the same function. -/
def same : Function → Function → Bool
  | builtin b, builtin c => b == c
  | host i _ _, host j _ _ => i == j
  | _, _ => false

end Function

/-- A value. -/
inductive Value where
  | null
  | boolean (value : Bool)
  | integer (value : Int64)
  | float (value : Float)
  | text (value : String)
  | list (items : List Value)
  /-- The keys are distinct and keep their order. -/
  | map (entries : List (String × Value))
  | function (value : Function)
  /-- A class: its name, the fields that its instances start with, and their methods. -/
  | ofClass (identity : Nat) (name : String) (fields : List (String × Value))
      (methods : List (String × Function))
  /-- An instance of a class, with fields of its own. -/
  | object (identity : Nat) (className : String) (fields : List (String × Value))
      (methods : List (String × Function))
  /-- A tree that is evaluated each time a name bound to it is looked up. -/
  | deferred (identity : Nat) (node : Node)
  deriving Repr

namespace Value

/-- The name of a value's type. -/
def typeName : Value → String
  | null => "null"
  | boolean _ => "boolean"
  | integer _ => "integer"
  | float _ => "float"
  | text _ => "string"
  | list _ => "list"
  | map _ => "map"
  | function _ => "function"
  | ofClass .. => "class"
  | object .. => "instance"
  | deferred .. => "expression"

/-! ## Values seen as one type -/

/-- The value is null. -/
def isNull : Value → Bool
  | null => true
  | _ => false

/-- The value as a truth value. -/
def bool? : Value → Option Bool
  | boolean b => some b
  | _ => none

/-- The value as a float; integers turn into the float nearest to them. -/
def float? : Value → Option Float
  | integer i => some (Decimal.ofInt i.toInt)
  | float x => some x
  | _ => none

/-- The value as an integer of 64 bits; floats without a fraction turn into the integer nearest to
them. -/
def int64? : Value → Option Int64
  | integer i => some i
  | float x => (Decimal.whole? x).map Decimal.clampInt64
  | _ => none

/-- The value as a text. -/
def text? : Value → Option String
  | text s => some s
  | _ => none

/-- The value as a list. -/
def list? : Value → Option (List Value)
  | list items => some items
  | _ => none

/-- The value as a map. -/
def map? : Value → Option (Table Value)
  | map entries => some entries
  | _ => none

/-- The name and arity of a value that can be called. -/
def callable? : Value → Option (String × Nat)
  | function f => some (f.name, f.arity)
  | ofClass _ name _ _ => some (name, 0)
  | _ => none

/-- A number as a value. -/
def ofNumber : Number → Value
  | .integer i => integer i
  | .float x => float x

/-- An absent value is null. -/
def ofOption : Option Value → Value
  | some v => v
  | none => null

mutual

/-- Structured data as a value. -/
def ofJson : Json → Value
  | .null => null
  | .boolean b => boolean b
  | .number n => ofNumber n
  | .text s => text s
  | .array items => list (ofJsonItems items)
  | .object entries => map (ofJsonEntries entries)

/-- The values of a list of structured data. -/
def ofJsonItems : List Json → List Value
  | [] => []
  | item :: items => ofJson item :: ofJsonItems items

/-- The values under the keys of structured data. -/
def ofJsonEntries : List (String × Json) → List (String × Value)
  | [] => []
  | (key, item) :: entries => (key, ofJson item) :: ofJsonEntries entries

end

end Value

/-! ## Classes and instances -/

/-- A class: its name, the fields that its instances start with, and their methods by name. -/
structure Class where
  name : String
  fields : Table Value
  methods : Table Function

/-- An instance of a class. -/
structure Instance where
  className : String
  fields : Table Value
  methods : Table Function

namespace Class

/-- A new instance of the class. -/
def instantiate (c : Class) : Instance :=
  { className := c.name, fields := c.fields, methods := c.methods }

/-- The method with the given name. -/
def method? (c : Class) (name : String) : Option Function := c.methods.lookup name

/-- The class as a value. -/
def toValue (c : Class) (identity : Nat) : Value :=
  .ofClass identity c.name c.fields c.methods

end Class

namespace Instance

/-- The property with the given name: a field, or else a method. -/
def property? (object : Instance) (name : String) : Option Value :=
  match object.fields.lookup name with
  | some v => some v
  | none => (object.methods.lookup name).map .function

/-- The instance with a field set. -/
def set (object : Instance) (name : String) (value : Value) : Instance :=
  { object with fields := Table.insert name value object.fields }

/-- The instance as a value. -/
def toValue (object : Instance) (identity : Nat) : Value :=
  .object identity object.className object.fields object.methods

/-- A field hides a method of the same name. -/
theorem property?_of_field {object : Instance} {name : String} {v : Value}
    (h : object.fields.lookup name = some v) : object.property? name = some v := by
  simp [property?, h]

/-- A field that was set is what it was set to. -/
@[simp] theorem property?_set (object : Instance) (name : String) (v : Value) :
    (object.set name v).property? name = some v :=
  property?_of_field (by simp [set])

end Instance

end Splice
