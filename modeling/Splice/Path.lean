import Splice.Text.Blank
import Splice.Text.Split
import Splice.Value

/-!
# `Splice.Path` — paths into structured values

A path is a chain of segments divided by dots. A segment is a key, any number of indices in
brackets, or a key with indices behind it. A dollar sign and a dot may stand at the front.

## Contents
- `Path.Step`, `Path.Step.apply?`: one step from a value to a part of it.
- `Path.steps?`: the steps of a path; absent if the path is none.
- `Path.lookup`: the value at the end of a path.
-/

namespace Splice.Path

/-- One step from a value to a part of it. -/
inductive Step where
  | key (name : String)
  | index (position : Nat)
  deriving DecidableEq, Repr

/-- The part of a value that a step leads to. -/
def Step.apply? : Step → Value → Option Value
  | key name, .map entries => entries.lookup name
  | index i, .list items => items[i]?
  | _, _ => none

/-- The part of a value that several steps lead to. -/
def follow? (steps : List Step) (root : Value) : Option Value :=
  steps.foldlM (fun value step => step.apply? value) root

/-- An index, with blanks around it and perhaps a plus sign before it. -/
def index? (cs : List Char) : Option Nat :=
  match Text.trim cs with
  | '+' :: digits => Decimal.readNat? 10 digits
  | digits => Decimal.readNat? 10 digits

/-- The indices, each in brackets, that make up a text. -/
def indices? (cs : List Char) : Option (List Nat) :=
  match cs with
  | [] => some []
  | c :: tail =>
    if c = '[' then
      match _h : tail.dropWhile (· != ']') with
      | [] => none
      | _ :: rest => do
        let i ← index? (tail.takeWhile (· != ']'))
        let is ← indices? rest
        return i :: is
    else none
termination_by cs.length
decreasing_by
  have hle := (List.dropWhile_suffix (l := tail) (· != ']')).length_le
  rw [_h] at hle
  simp only [List.length_cons] at hle ⊢
  omega

/-- The steps of a segment; an empty segment is none. -/
def segment? (cs : List Char) : Option (List Step) :=
  let name := cs.takeWhile (· != '[')
  (indices? (cs.dropWhile (· != '['))).bind fun is =>
    if name.isEmpty && is.isEmpty then none
    else
      some ((if name.isEmpty then [] else [.key (String.ofList name)]) ++ is.map .index)

/-- The path without the character at its front, if it is the given one. -/
def dropMark (mark : Char) : List Char → List Char
  | [] => []
  | c :: cs => if c = mark then cs else c :: cs

/-- The steps of a path. -/
def steps? (path : List Char) : Option (List Step) :=
  ((Text.splitOn '.' (dropMark '.' (dropMark '$' path))).mapM segment?).map List.flatten

/-- The part of `root` at the end of a path; absent if the path is none or leads nowhere. -/
def lookup (root : Value) (path : String) : Option Value :=
  (steps? path.toList).bind fun steps => follow? steps root

end Splice.Path
