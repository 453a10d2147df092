import Splice.Token

/-!
# `Splice.Node` — syntax trees

## Contents
- `Number`: an integer of 64 bits or a float.
- `Literal`: a value that is known, or that the host supplies each time it is read.
- `Node`: the trees of expressions and templates.
- `Node.isFloat`, `Node.truth?`: what a literal is.
-/

namespace Splice

/-- The value of a number literal. -/
inductive Number where
  | integer (value : Int64)
  | float (value : Float)
  deriving DecidableEq, Repr

/-- The number is a float. -/
def Number.isFloat : Number → Bool
  | integer _ => false
  | float _ => true

/-- The value of a literal: known, or supplied by the host under the given identity, afresh for
every reading. -/
inductive Literal (α : Type) where
  | known (value : α)
  | supplied (supplier : Nat)
  deriving DecidableEq, Repr

/-- A syntax tree. -/
inductive Node where
  /-- A whole expression. -/
  | program (body : Node)
  | number (literal : Literal Number)
  | text (literal : Literal String)
  /-- A truth value; the kind of its token tells which, if it is that of a truth value. -/
  | boolean (token : Token)
  /-- The value bound to a name. -/
  | reference (name : Token)
  | call (callee : Node) (arguments : List Node)
  /-- A property of a value. -/
  | access (target : Node) (field : Token)
  /-- Texts and values joined to one text. -/
  | template (parts : List Node)
  deriving Repr

namespace Node

/-- The tree of a known text. -/
def ofText (text : String) : Node := .text (.known text)

/-- The truth value that a tree stands for as a literal. -/
def truth? : Node → Option Bool
  | .boolean token =>
    match token.kind with
    | .trueWord => some true
    | .falseWord => some false
    | _ => none
  | _ => none

/-- The body of a whole expression, or the tree itself. -/
def body : Node → Node
  | .program body => body
  | node => node

end Node

end Splice
