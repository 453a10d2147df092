import Splice.Host

/-!
# `Splice.Routine` — ready-made functions and literals of a host

## Contents
- `Routine`, `Routine.action`: functions that a host can bind without writing an action of its own.
- `Supplier`: literals that a host can supply.
- `Host.ofObjects`: the host with given functions and literals.
-/

namespace Splice

/-- A ready-made function. -/
inductive Routine where
  /-- Returns a value as it is, and evaluates nothing. -/
  | constant (value : Value)
  /-- Evaluates one argument. -/
  | argument (position : Nat)
  /-- Evaluates all arguments and lists their values. -/
  | all
  /-- Returns the number of arguments, and evaluates nothing. -/
  | count
  | failure (message : String)
  /-- Evaluates a value if it is deferred. -/
  | force (value : Value)
  /-- Leaves its name in the trace and then evaluates a value if it is deferred. -/
  | traced (value : Value)
  /-- Returns the number of its calls. -/
  | tally
  /-- Whether the name that its first argument displays is bound, and to what. -/
  | lookup
  /-- The names of the scopes. -/
  | scopes
  /-- Checks the number of its arguments. -/
  | expect (expected : Expectation)

/-- What the function of a host with the given identity and name does when it is called with `found`
arguments. -/
def Routine.action (identity : Nat) (name : String) (found : Nat) : Routine → Action Value
  | constant v => return v
  | argument position => Action.read position
  | all => return .list (← Action.readAll found)
  | count => return .integer (Int64.ofNat found)
  | failure message => .fail (.host message)
  | force v => Action.force v
  | traced v => .emit name (Action.force v)
  | tally => .tally identity fun n => return .integer (Int64.ofNat n)
  | lookup => do
    let key ← Action.read 0
    .context fun scopes =>
      let binding := scopes.lookup? key.display
      return .list [.boolean binding.isSome, .ofOption binding]
  | scopes => .context fun scopes => return .list (scopes.scopeNames.map .text)
  | expect expected => do
    Action.expect name expected found
    return .boolean true

/-- A literal that a host supplies. -/
inductive Supplier where
  | number (value : Number)
  | text (value : String)
  /-- The number of its readings. -/
  | readings

/-- The number that a literal supplies; zero if it supplies none. -/
def Supplier.numberAt (reading : Nat) : Supplier → Number
  | number value => value
  | text _ => .integer 0
  | readings => .integer (Int64.ofNat reading)

/-- The text that a literal supplies; empty if it supplies none. -/
def Supplier.textAt : Supplier → String
  | text value => value
  | _ => ""

/-- The host with the given functions, each with its name, and literals. Other functions return
null, and other literals are zero or empty. -/
def Host.ofObjects (functions : List (Nat × String × Routine)) (literals : List (Nat × Supplier)) :
    Host where
  routine identity found :=
    match functions.lookup identity with
    | some (name, routine) => routine.action identity name found
    | none => return .null
  number identity reading :=
    match literals.lookup identity with
    | some supplier => supplier.numberAt reading
    | none => .integer 0
  text identity _ :=
    match literals.lookup identity with
    | some supplier => supplier.textAt
    | none => ""

end Splice
