import Splice.Node.Machine
import Splice.Span

/-!
# `Splice.Node.Source` — from text to a tree

Quoted texts may be templates whose spans are expressions again, and so is the text that a host
hands over, which may also be an expression as it stands.

## Contents
- `Node.templateOf`: the tree of a template, given how to read its spans.
- `Node.ofChars`: the tree of an expression.
- `Node.ofExpression`, `Node.ofTemplate`, `Node.read`: an expression, a template, or whichever of
  the two a text looks like.
-/

namespace Splice.Node

open Splice.Span (Segment segments)

/-- The tree of a template, whose spans `read` turns into trees; the leftmost span that is no
expression gives the error. -/
def templateOf (read : List Char → Except SourceError Node) (text : List Char) :
    Except SourceError Node :=
  let part : Segment → Except SourceError Node
    | .literal text => .ok (ofText (String.ofList text))
    | .span source => (read source).map body
  ((segments text).mapM part).map .template

/-- The tree of a text token: a template if it has spans, else the text. -/
def expandText (read : List Char → Except SourceError Node) (token : Token) :
    Except SourceError Node :=
  if Span.hasSpans token.lexeme.toList then templateOf read token.lexeme.toList
  else .ok (ofText token.lexeme)

/-- The tree of an expression. A span is always shorter than the text it stands in, so the check of
the lengths only shows that reading ends. -/
def ofChars (source : List Char) : Except SourceError Node :=
  match scan source with
  | .error e => .error (.scan e)
  | .ok tokens =>
    parseTokens
      (expandText fun inner =>
        if _h : inner.length < source.length then ofChars inner
        else .ok (ofText (String.ofList inner)))
      tokens
termination_by source.length

/-- The text without the single quotes around it. -/
def stripQuotes (text : List Char) : List Char :=
  if 2 ≤ text.length && text.head? == some '\'' && text.getLast? == some '\'' then
    (text.drop 1).dropLast
  else text

/-- The tree of a text, blanks at its ends apart: the expression in its only span, a template if it
has other text as well, in which quotes around the whole do not count, or else an expression. -/
def readChars (text : List Char) : Except SourceError Node :=
  let text := Text.trim text
  match Span.singleSpan? text with
  | some source => ofChars source
  | none => if Span.hasSpans text then templateOf ofChars (stripQuotes text) else ofChars text

/-- The tree of an expression. -/
def ofExpression (source : String) : Except SourceError Node := ofChars source.toList

/-- The tree of a template. -/
def ofTemplate (text : String) : Except SourceError Node := templateOf ofChars text.toList

/-- The tree of a text as a host hands it over. -/
def read (text : String) : Except SourceError Node := readChars text.toList

end Splice.Node
