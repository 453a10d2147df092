import Splice.Catalogue

/-!
# `Splice.Host` — what a host brings to an evaluation

A host makes functions and literals of its own. Both are known to values and trees by an identity
only; the host says what stands behind it. A journal keeps what changes in the course of
evaluations.

## Contents
- `Journal`: the trace, the uses that were counted, and the identities that were given out.
- `Host`: the functions and literals behind identities.
- `Literal.read`, `Node.settle`: literals are read, each reading being counted.
- `Node.isFloat`: whether a tree is the literal of a float.
-/

namespace Splice

/-- What changes in the course of evaluations. -/
structure Journal where
  /-- The labels that functions of the host emitted, in order. -/
  trace : List String
  /-- How often the function or literal with a given identity was used, if that is counted. -/
  uses : Nat → Nat
  /-- The identity of the next object. -/
  nextIdentity : Nat

namespace Journal

/-- The journal before the first evaluation. -/
def new : Journal := { trace := [], uses := fun _ => 0, nextIdentity := 0 }

/-- Adds a label to the trace. -/
def emit (label : String) (journal : Journal) : Journal :=
  { journal with trace := journal.trace ++ [label] }

/-- Counts one more use; the answer is the number of uses with this one. -/
def use (identity : Nat) (journal : Journal) : Nat × Journal :=
  let uses := journal.uses identity + 1
  (uses, { journal with uses := fun i => if i = identity then uses else journal.uses i })

/-- Gives out an identity. -/
def freshIdentity (journal : Journal) : Nat × Journal :=
  (journal.nextIdentity, { journal with nextIdentity := journal.nextIdentity + 1 })

@[simp] theorem use_fst (identity : Nat) (journal : Journal) :
    (journal.use identity).1 = journal.uses identity + 1 := rfl

@[simp] theorem trace_use (identity : Nat) (journal : Journal) :
    (journal.use identity).2.trace = journal.trace := rfl

@[simp] theorem trace_emit (label : String) (journal : Journal) :
    (journal.emit label).trace = journal.trace ++ [label] := rfl

end Journal

/-- The functions and literals of a host. -/
structure Host where
  /-- What the function with an identity does when it is called with a number of arguments. -/
  routine : (identity found : Nat) → Action Value
  /-- The number that the literal with an identity has at its first, second, … reading. -/
  number : (identity reading : Nat) → Number
  /-- The text that the literal with an identity has at its first, second, … reading. -/
  text : (identity reading : Nat) → String

namespace Host

/-- A host that makes neither functions nor literals. -/
def empty : Host where
  routine _ _ := return .null
  number _ _ := .integer 0
  text _ _ := ""

end Host

/-- What a function does when it is called with `found` arguments. -/
def Function.action (host : Host) (found : Nat) : Function → Action Value
  | builtin b => b.action found
  | .host identity _ _ => host.routine identity found

/-- Reads a literal, given what the host supplies. -/
def Literal.read {α : Type} (supply : (identity reading : Nat) → α) : Literal α → StateM Journal α
  | .known value => return value
  | .supplied identity => do
    let reading ← modifyGet (Journal.use identity)
    return supply identity reading

namespace Node

mutual

/-- The tree with all its literals read, from left to right. -/
def settle (host : Host) : Node → StateM Journal Node
  | program body => return program (← body.settle host)
  | number literal => return number (.known (← literal.read host.number))
  | text literal => return text (.known (← literal.read host.text))
  | boolean token => return boolean token
  | reference name => return reference name
  | call callee arguments => do
    let callee ← callee.settle host
    return call callee (← settleEach host arguments)
  | access target field => return access (← target.settle host) field
  | template parts => return template (← settleEach host parts)

/-- The trees with all their literals read. -/
def settleEach (host : Host) : List Node → StateM Journal (List Node)
  | [] => return []
  | node :: nodes => do
    let node ← node.settle host
    return node :: (← settleEach host nodes)

end

/-- Whether the tree is the literal of a float. -/
def isFloat (host : Host) : Node → StateM Journal Bool
  | number literal => return (← literal.read host.number).isFloat
  | _ => return false

end Node

end Splice
