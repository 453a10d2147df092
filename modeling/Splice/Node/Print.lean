import Splice.Decimal.Layout
import Splice.Node
import Splice.Text.Detail

/-!
# `Splice.Node.Print` — trees as text

## Contents
- `Node.print`: a tree as a parenthesised expression, each list headed by what it is.
- `Node.detail`: a tree as nested constructors, with every token in full.
-/

namespace Splice

/-- A number as it stands in a printed tree. -/
def Number.print : Number → String
  | integer i => toString i.toInt
  | float x => Decimal.Layout.source.write x

/-- A number as it stands in a detailed description. -/
def Number.detail : Number → String
  | number@(integer _) => Text.applied "Integer" number.print
  | number@(float _) => Text.applied "Float" number.print

/-- A literal, given how to write a known value. A supplied one is not read. -/
def Literal.describe {α : Type} (known : α → String) : Literal α → String
  | .known value => known value
  | .supplied _ => "<supplier>"

/-- A token with all its parts. -/
def Token.detail (token : Token) : String :=
  Text.record "Token"
    [("tokentype", token.kind.name), ("lexeme", Text.quote token.lexeme),
      ("line", toString token.line)]

mutual

/-- The tree as a parenthesised expression: texts are quoted, and everything else that stands alone
is written bare. -/
def Node.print : Node → String
  | .program body => "(program " ++ body.print ++ ")"
  | .number literal => literal.describe Number.print
  | .text literal => literal.describe Text.quote
  | .boolean token => token.lexeme
  | .reference name => name.lexeme
  | .call callee arguments => "(call " ++ callee.print ++ Node.printEach arguments ++ ")"
  | .access target field => "(get " ++ target.print ++ " " ++ field.lexeme ++ ")"
  | .template parts => "(str" ++ Node.printEach parts ++ ")"

/-- The trees, each after a space. -/
def Node.printEach : List Node → String
  | [] => ""
  | node :: nodes => " " ++ node.print ++ Node.printEach nodes

end

mutual

/-- The tree as nested constructors. -/
def Node.detail : Node → String
  | .program body => Text.applied "Program" body.detail
  | .number literal => Text.applied "NumberLiteral" (literal.describe Number.detail)
  | .text literal => Text.applied "StringLiteral" (literal.describe Text.quote)
  | .boolean token => Text.applied "BooleanLiteral" token.detail
  | .reference name => Text.applied "Variable" name.detail
  | .call callee arguments =>
    Text.record "Call"
      [("callee", callee.detail), ("arguments", Text.listed (Node.detailEach arguments))]
  | .access target field =>
    Text.record "Get" [("target", target.detail), ("name", field.detail)]
  | .template parts => Text.applied "StringExpression" (Text.listed (Node.detailEach parts))

/-- The description of each tree. -/
def Node.detailEach : List Node → List String
  | [] => []
  | node :: nodes => node.detail :: Node.detailEach nodes

end

end Splice
