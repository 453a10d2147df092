import Splice.Host
import Splice.Node.Source

/-!
# `Splice.Eval` — evaluation

A tree is evaluated against a chain of scopes. Calls hand their arguments over unevaluated, and the
action of the function says which of them are evaluated, and when; a name bound to a deferred tree
stands for the value of that tree. Since such a tree may lead back to its own name, the depth of an
evaluation is limited.

## Contents
- `Halt`, `EvalM`: how an evaluation ends without a value, and the monad of evaluations.
- `Action.perform`: an action, given how to evaluate trees; `Action.perform_bind` says that actions
  are run in sequence.
- `Value.property`: the property of a value with a given name.
- `eval`: the value of a tree, up to a depth.
- `Node.evaluate`, `evaluate`: the value of a tree and of a text, behind all scopes the builtins.
-/

namespace Splice

/-- How an evaluation ends without a value. -/
inductive Halt where
  /-- The limit of the depth was reached. -/
  | exhausted
  | failed (error : EvalError)
  deriving DecidableEq, Repr

/-- Evaluations: they read and write the journal, which outlives a failure. -/
abbrev EvalM := ExceptT Halt (StateM Journal)

/-- Ends an evaluation with an error. -/
def EvalM.fail {α : Type} (error : EvalError) : EvalM α := throw (.failed error)

/-- The value of the argument at a position; a missing argument is null. -/
def EvalM.argument (evaluate : Node → EvalM Value) (arguments : List Node) (position : Nat) :
    EvalM Value :=
  match arguments[position]? with
  | some node => evaluate node
  | none => return .null

namespace Action

/-- Runs an action in a call with the given arguments. -/
def perform {α : Type} (evaluate : Node → EvalM Value) (scopes : Context)
    (arguments : List Node) : Action α → EvalM α
  | done result => return result
  | fail error => EvalM.fail error
  | argument position next => do
    let v ← EvalM.argument evaluate arguments position
    (next v).perform evaluate scopes arguments
  | .evaluate node next => do
    let v ← evaluate node
    (next v).perform evaluate scopes arguments
  | emit label next => do
    modify (Journal.emit label)
    next.perform evaluate scopes arguments
  | tally identity next => do
    let n ← modifyGet (Journal.use identity)
    (next n).perform evaluate scopes arguments
  | context next => (next scopes).perform evaluate scopes arguments

/-- To run one action after another is to run them in sequence. -/
theorem perform_bind {α β : Type} {evaluate : Node → EvalM Value} {scopes : Context}
    {arguments : List Node} (action : Action α) (rest : α → Action β) :
    (action.bind rest).perform evaluate scopes arguments =
      action.perform evaluate scopes arguments >>= fun a =>
        (rest a).perform evaluate scopes arguments := by
  induction action with
  | done result => simp [Action.bind, perform]
  | fail error => simp [Action.bind, perform, EvalM.fail]
  | argument position next ih => simp [Action.bind, perform, ih, LawfulMonad.bind_assoc]
  | evaluate node next ih => simp [Action.bind, perform, ih, LawfulMonad.bind_assoc]
  | emit label next ih => simp [Action.bind, perform, ih, LawfulMonad.bind_assoc]
  | tally identity next ih => simp [Action.bind, perform, ih, LawfulMonad.bind_assoc]
  | context next ih => simp [Action.bind, perform, ih]

end Action

/-- The property of a value with a given name. Maps have their entries, and instances their fields
and methods; every property of null is null. -/
def Value.property (name : String) : Value → Except EvalError Value
  | null => .ok null
  | map entries => (entries.lookup name).elim (.error (.undefinedProperty name)) .ok
  | object _ className fields methods =>
    (Instance.property? { className, fields, methods } name).elim
      (.error (.undefinedProperty name)) .ok
  | v => .error (.notAccessible name v.typeName)

/-- The value of a tree under a chain of scopes, `depth` being the limit of the depth. -/
def eval (host : Host) (scopes : Context) : (depth : Nat) → Node → EvalM Value
  | 0, _ => throw .exhausted
  | depth + 1, node =>
    match node with
    | .program body => eval host scopes depth body
    | .number literal => do
      let number ← (literal.read host.number : StateM Journal Number)
      return .ofNumber number
    | .text literal => do
      let text ← (literal.read host.text : StateM Journal String)
      return .text text
    | .boolean _ => return .ofOption (node.truth?.map .boolean)
    | .reference name =>
      match scopes.lookup? name.lexeme with
      | none => EvalM.fail (.undefinedVariable name.lexeme name.line)
      | some (.deferred _ body) => eval host scopes depth body
      | some v => return v
    | .call callee arguments => do
      let called ← eval host scopes depth callee
      match called with
      | .function f =>
        (f.action host arguments.length).perform (eval host scopes depth) scopes arguments
      | .ofClass _ name fields methods =>
        let identity ← modifyGet Journal.freshIdentity
        return .object identity name fields methods
      | v =>
        let callee ← callee.settle host
        EvalM.fail (.invalidCallee callee.print v.typeName)
    | .access target field => do
      let v ← eval host scopes depth target
      match v.property field.lexeme with
      | .ok property => return property
      | .error error => EvalM.fail error
    | .template parts => do
      let values ← parts.mapM (eval host scopes depth)
      return .text (String.join (values.map Value.display))

/-- The limit of the depth of an evaluation. -/
def depthLimit : Nat := 10000

/-- The value of a tree under the scopes of the host, if it has any, and the builtin functions. -/
def Node.evaluate (host : Host) (context : Option Context) (node : Node) : EvalM Value :=
  eval host (Context.withBuiltins context) depthLimit node

/-- Why a text has no value. -/
inductive Failure where
  | source (error : SourceError)
  | eval (error : EvalError)
  | exhausted
  deriving Repr

/-- The wording of a failure. -/
def Failure.message : Failure → String
  | source error => error.message
  | eval error => error.message
  | exhausted => "The expression is nested too deeply."

/-- An evaluation that did not end with a value has failed. -/
def Failure.ofHalt : Halt → Failure
  | .failed error => eval error
  | .exhausted => exhausted

/-- The value of a text: an expression, a span, or a template. A text that cannot be read is not
evaluated in part. -/
def evaluate (host : Host) (context : Option Context) (source : String) (journal : Journal) :
    Except Failure Value × Journal :=
  match Node.read source with
  | .error error => (.error (.source error), journal)
  | .ok node =>
    let (outcome, journal) := (node.evaluate host context).run.run journal
    (outcome.mapError Failure.ofHalt, journal)

end Splice
