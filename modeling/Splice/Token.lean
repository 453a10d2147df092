/-!
# `Splice.Token` — tokens

The words and marks that an expression is made of, with the line each stands on.

## Contents
- `Token.Kind`: the kinds of tokens, and the name of each.
- `Token`: a kind, the characters it stands for, and a line.
-/

namespace Splice

/-- The kinds of tokens. -/
inductive Token.Kind where
  | leftParen
  | rightParen
  | comma
  | dot
  | semicolon
  | newLine
  | identifier
  | text
  | integer
  | float
  | trueWord
  | falseWord
  | endOfInput
  deriving DecidableEq, Repr

/-- The name of a kind in messages. -/
def Token.Kind.name : Token.Kind → String
  | leftParen => "LeftParen"
  | rightParen => "RightParen"
  | comma => "Comma"
  | dot => "Dot"
  | semicolon => "Semicolon"
  | newLine => "NewLine"
  | identifier => "Variable"
  | text => "String"
  | integer => "Integer"
  | float => "Float"
  | trueWord => "True"
  | falseWord => "False"
  | endOfInput => "EOF"

/-- Every kind, in the order of their declaration. -/
def Token.Kind.all : List Token.Kind :=
  [leftParen, rightParen, comma, dot, semicolon, newLine, identifier, text, integer, float,
    trueWord, falseWord, endOfInput]

/-- The kind with the given name. -/
def Token.Kind.ofName? (name : String) : Option Token.Kind :=
  Token.Kind.all.find? fun kind => kind.name == name

/-- A token: its kind, its lexeme and its line. Lines are counted from 1, without a limit. -/
structure Token where
  kind : Token.Kind
  lexeme : String
  line : Int
  deriving DecidableEq, Repr

/-- What follows the last token when nothing else does. -/
def Token.nothing : Token := { kind := .endOfInput, lexeme := "", line := 0 }

end Splice
