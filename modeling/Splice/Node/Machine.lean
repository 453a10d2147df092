import Splice.Decimal.Reading
import Splice.Node
import Splice.Token.Scan

/-!
# `Splice.Node.Machine` — from tokens to a tree

An expression is a literal or a chain: a name followed by any number of calls and property
accesses. A machine reads one token at a time. It remembers the calls whose arguments it is still
reading, innermost first, and what it has of the expression at hand.

## Contents
- `ParseError`, `SourceError`: why tokens, or a text, are no expression.
- `Machine.State`, `Machine.step`: the machine and its step.
- `Machine.finish`: the answer when the tokens run out.
- `parseTokens`: the tree of a list of tokens; what follows the first expression is ignored.
-/

namespace Splice

/-! ## Errors -/

/-- Why tokens are no expression. -/
inductive ParseError where
  /-- No expression starts with this token. -/
  | unexpectedToken (kind : Token.Kind) (lexeme : String) (line : Int)
  /-- An argument is followed neither by a comma nor by the closing parenthesis. -/
  | missingComma (line : Int)
  /-- The input ends among the arguments of a call. -/
  | missingClosingParen (line : Int)
  /-- A dot is followed by something other than a name. -/
  | invalidFieldName (lexeme : String) (line : Int)
  deriving DecidableEq, Repr

/-- The wording of a parse error. -/
def ParseError.message : ParseError → String
  | unexpectedToken kind lexeme line =>
    s!"[line {line}] Parse Error: Unexpected token {kind.name} '{lexeme}'."
  | missingComma line =>
    s!"[line {line}] Parse Error: Expected ',' after a function argument."
  | missingClosingParen line =>
    s!"[line {line}] Parse Error: Expected ')' after the arguments."
  | invalidFieldName lexeme line =>
    s!"[line {line}] Parse Error: Expected a field name after '.', found '{lexeme}'."

/-- Why a text is no expression. -/
inductive SourceError where
  | scan (error : ScanError)
  | parse (error : ParseError)
  deriving DecidableEq, Repr

/-- The wording of a source error. -/
def SourceError.message : SourceError → String
  | scan e => e.message
  | parse e => e.message

namespace Machine

/-! ## The machine -/

/-- A call whose closing parenthesis is still to come, with the arguments read so far. -/
structure OpenCall where
  callee : Node
  arguments : List Node

/-- The call with its last argument, if there is one more, closed. -/
def OpenCall.close (call : OpenCall) (last : List Node) : Node :=
  .call call.callee (call.arguments ++ last)

/-- What the machine has of the expression at hand. -/
inductive Focus where
  /-- Nothing: an expression is due, or the closing parenthesis of the innermost call. -/
  | start
  /-- A chain, which calls and accesses may extend. -/
  | chain (node : Node)
  /-- A chain and a dot: a name is due. -/
  | field (target : Node)
  /-- A literal, which nothing extends. -/
  | literal (node : Node)

/-- The machine: the calls being read, innermost first, and the expression at hand. -/
structure State where
  calls : List OpenCall
  focus : Focus

/-- The machine before the first token. -/
def State.initial : State := { calls := [], focus := .start }

/-- The machine goes on, or has found its tree. -/
inductive Verdict where
  | more (state : State)
  | found (node : Node)

variable (expand : Token → Except SourceError Node)

/-- The error for a number that cannot be read. -/
def malformed (token : Token) : SourceError := .scan (.malformedNumber token.lexeme token.line)

/-- The error for a token that starts no expression. -/
def unexpected (token : Token) : SourceError :=
  .parse (.unexpectedToken token.kind token.lexeme token.line)

/-- What a token that starts an expression stands for. Texts are left to `expand`. A semicolon, and
the end of the input, stand for their own characters as a text. -/
def operand (token : Token) : Except SourceError Focus :=
  match token.kind with
  | .integer =>
    match Decimal.readInt64? 10 token.lexeme.toList with
    | some i => .ok (.literal (.number (.known (.integer i))))
    | none => .error (malformed token)
  | .float =>
    match Decimal.readFloat? token.lexeme.toList with
    | some x => .ok (.literal (.number (.known (.float x))))
    | none => .error (malformed token)
  | .trueWord | .falseWord => .ok (.literal (.boolean token))
  | .text => (expand token).map .literal
  | .semicolon | .endOfInput => .ok (.literal (Node.ofText token.lexeme))
  | .identifier => .ok (.chain (.reference token))
  | .leftParen | .rightParen | .comma | .dot | .newLine => .error (unexpected token)

/-- The step on a token behind a finished expression. Without an open call the expression is the
answer; otherwise it is an argument of the innermost one. -/
def afterExpression (calls : List OpenCall) (node : Node) (token : Token) :
    Except SourceError Verdict :=
  match calls with
  | [] => .ok (.found node)
  | call :: calls =>
    match token.kind with
    | .rightParen => .ok (.more { calls, focus := .chain (call.close [node]) })
    | .comma =>
      .ok (.more
        { calls := { call with arguments := call.arguments ++ [node] } :: calls, focus := .start })
    | .endOfInput => .error (.parse (.missingClosingParen token.line))
    | _ => .error (.parse (.missingComma token.line))

/-- The step on one token. -/
def step (state : State) (token : Token) : Except SourceError Verdict :=
  match state.focus with
  | .start =>
    match state.calls, token.kind with
    | call :: calls, .rightParen => .ok (.more { calls, focus := .chain (call.close []) })
    | _ :: _, .endOfInput => .error (.parse (.missingClosingParen token.line))
    | calls, _ => (operand expand token).map fun focus => .more { calls, focus }
  | .chain node =>
    match token.kind with
    | .leftParen =>
      .ok (.more { calls := { callee := node, arguments := [] } :: state.calls, focus := .start })
    | .dot => .ok (.more { calls := state.calls, focus := .field node })
    | _ => afterExpression state.calls node token
  | .field target =>
    match token.kind with
    | .identifier => .ok (.more { calls := state.calls, focus := .chain (.access target token) })
    | _ => .error (.parse (.invalidFieldName token.lexeme token.line))
  | .literal node => afterExpression state.calls node token

/-! ## The end of the tokens -/

/-- The calls closed one after the other, each taking what was closed before as its last
argument. -/
def closeAll (node : Node) (calls : List OpenCall) : Node :=
  calls.foldl (fun node call => call.close [node]) node

/-- The answer when the tokens run out. The last token is then read as if it stood there again: a
closing parenthesis closes every open call, and nothing else helps. No tokens at all stand for the
empty text. -/
def finish (state : State) (last : Token) : Except SourceError Node :=
  match state.focus, state.calls with
  | .start, [] => .ok (Node.ofText last.lexeme)
  | .start, _ :: _ => .error (unexpected last)
  | .field _, _ => .error (.parse (.invalidFieldName last.lexeme last.line))
  | .chain node, [] => .ok node
  | .literal node, [] => .ok node
  | .chain node, calls | .literal node, calls =>
    if last.kind = .rightParen then .ok (closeAll node calls)
    else .error (.parse (.missingComma last.line))

/-- Runs the machine over the tokens, the last of which so far is at hand. -/
def run (state : State) (last : Token) : List Token → Except SourceError Node
  | [] => finish state last
  | token :: tokens =>
    match step expand state token with
    | .ok (.more state) => run state token tokens
    | .ok (.found node) => .ok node
    | .error e => .error e

end Machine

/-- The tree of the first expression of `tokens`, in which `expand` gives the trees of texts. -/
def parseTokens (expand : Token → Except SourceError Node) (tokens : List Token) :
    Except SourceError Node :=
  (Machine.run expand .initial .nothing tokens).map .program

end Splice
