import Splice.Decimal.Layout

/-!
# `Splice.EvalError` — what can go wrong in an evaluation

## Contents
- `Expectation`: how many arguments a function takes.
- `ArgumentFault`: what a builtin function finds wrong with its arguments.
- `EvalError`, `EvalError.message`: the errors of an evaluation and their wording.
-/

namespace Splice

/-- How many arguments a function takes. -/
inductive Expectation where
  | exactly (count : Nat)
  | atLeast (count : Nat)
  | atMost (count : Nat)
  deriving DecidableEq, Repr

/-- The number of arguments is as expected. -/
def Expectation.admits : Expectation → Nat → Bool
  | exactly count, found => found == count
  | atLeast count, found => count ≤ found
  | atMost count, found => found ≤ count

/-- An expectation in words. -/
def Expectation.message : Expectation → String
  | exactly count => toString count
  | atLeast count => s!"at least {count}"
  | atMost count => s!"at most {count}"

/-- What a builtin function finds wrong with its arguments. -/
inductive ArgumentFault where
  /-- One of two operands, given as they are displayed, is no number. -/
  | operandsNotNumbers (left right : String)
  | emptyRange (low high : Float)
  | outOfBounds (start stop : Int64) (length : Nat)
  | negativeCount (count : Int64)
  | notANumber
  deriving DecidableEq, Repr

/-- The wording of a fault. -/
def ArgumentFault.message : ArgumentFault → String
  | operandsNotNumbers left right => s!"operands must be numbers, found {left} and {right}"
  | emptyRange low high =>
    s!"empty range {Decimal.Layout.plain.write low}..{Decimal.Layout.plain.write high}"
  | outOfBounds start stop length =>
    s!"range {start.toInt}..{stop.toInt} out of bounds for length {length}"
  | negativeCount count => s!"count must not be negative, found {count.toInt}"
  | notANumber => "expected a number"

/-- An error of an evaluation. -/
inductive EvalError where
  | undefinedVariable (name : String) (line : Int)
  /-- What is called, printed as a tree, has a value of the given type. -/
  | invalidCallee (callee typeName : String)
  /-- A property is read from a value whose type has none. -/
  | notAccessible (name typeName : String)
  | undefinedProperty (name : String)
  | divisionByZero
  | argumentCount (function : String) (expected : Expectation) (found : Nat)
  | invalidArgument (function : String) (fault : ArgumentFault)
  /-- A function of the host failed. -/
  | host (message : String)
  deriving DecidableEq, Repr

/-- The wording of an error. -/
def EvalError.message : EvalError → String
  | undefinedVariable name line => s!"[line {line}] Error: Undefined variable '{name}'."
  | invalidCallee callee typeName => s!"Invalid function: {callee} is a {typeName}."
  | notAccessible name typeName =>
    s!"Only class instances and maps have properties; cannot read '{name}' from a {typeName}."
  | undefinedProperty name => s!"Undefined property '{name}'."
  | divisionByZero => "Division by zero."
  | argumentCount function expected found =>
    s!"{function}: expected {expected.message} arguments, found {found}."
  | invalidArgument function fault => s!"{function}: {fault.message}"
  | host message => message

end Splice
