import Splice.EvalError
import Splice.Scope

/-!
# `Splice.Action` — what a function does when it is called

A function is called with its arguments unevaluated and decides itself which of them to evaluate,
and when. What it does is an action: a tree of its dealings with the evaluation, which are
answered one after the other, and its result at the end of each branch.

## Contents
- `Action`: the dealings of a function; `Action.bind` puts one action after another.
- `Action.argument`, `Action.argumentsFrom`: evaluating arguments.
- `Action.expect`: the check of the number of arguments.
-/

namespace Splice

/-- The dealings of a function with the evaluation that called it, and its result. -/
inductive Action (α : Type) where
  | done (result : α)
  | fail (error : EvalError)
  /-- Evaluates the argument at a position; a missing argument is null. -/
  | argument (position : Nat) (next : Value → Action α)
  /-- Evaluates a tree that is not an argument. -/
  | evaluate (node : Node) (next : Value → Action α)
  /-- Adds a label to the trace. -/
  | emit (label : String) (next : Action α)
  /-- Counts one more use of something of the host, and asks how many there were with it. -/
  | tally (identity : Nat) (next : Nat → Action α)
  /-- Asks for the chain of scopes. -/
  | context (next : Context → Action α)

namespace Action

variable {α β γ : Type}

/-- The first action, and then the one that its result gives. -/
def bind (action : Action α) (rest : α → Action β) : Action β :=
  match action with
  | done result => rest result
  | fail error => .fail error
  | argument position next => .argument position fun v => (next v).bind rest
  | evaluate node next => .evaluate node fun v => (next v).bind rest
  | emit label next => .emit label (next.bind rest)
  | tally identity next => .tally identity fun n => (next n).bind rest
  | context next => .context fun c => (next c).bind rest

instance : Monad Action where
  pure := done
  bind := bind

/-- The value of the argument at a position. -/
def read (position : Nat) : Action Value := argument position done

/-- The value of a tree. -/
def value (node : Node) : Action Value := evaluate node done

/-- The values of `n` arguments, from a position on. -/
def readFrom (position : Nat) : (n : Nat) → Action (List Value)
  | 0 => return []
  | n + 1 => do
    let v ← read position
    let vs ← readFrom (position + 1) n
    return v :: vs

/-- The values of all arguments of a call that has `found` of them. -/
def readAll (found : Nat) : Action (List Value) := readFrom 0 found

/-- The value of a deferred tree, or a value as it is. -/
def force : Value → Action Value
  | .deferred _ node => value node
  | v => return v

/-- Fails unless the number of arguments is as expected. -/
def expect (function : String) (expected : Expectation) (found : Nat) : Action Unit :=
  if expected.admits found then return () else fail (.argumentCount function expected found)

/-! ## Laws -/

@[simp] theorem pure_eq (a : α) : (pure a : Action α) = done a := rfl

@[simp] theorem bind_eq (x : Action α) (f : α → Action β) : (x >>= f) = x.bind f := rfl

@[simp] theorem done_bind (a : α) (f : α → Action β) : (done a).bind f = f a := rfl

@[simp] theorem bind_done (x : Action α) : x.bind done = x := by
  induction x <;> simp_all [bind]

theorem bind_assoc (x : Action α) (f : α → Action β) (g : β → Action γ) :
    (x.bind f).bind g = x.bind fun a => (f a).bind g := by
  induction x <;> simp_all [bind]

/-- A check that holds does nothing. -/
theorem expect_of_admits {function : String} {expected : Expectation} {found : Nat}
    (h : expected.admits found = true) : expect function expected found = done () := by
  simp [expect, h]

/-- A check that fails is a failure, whatever comes after it. -/
theorem expect_of_not_admits {function : String} {expected : Expectation} {found : Nat}
    (h : expected.admits found = false) :
    expect function expected found = fail (.argumentCount function expected found) := by
  simp [expect, h]

end Action

end Splice
