import Splice.Proofs.Evaluation
import Splice.Proofs.Filling
import Splice.Proofs.Segmentation

/-!
# `Splice.Proofs.Unquoting` — quotes around a template

A template may stand between single quotes. As the text of a host it is a template in quotes that do
not count; as an expression it is a quoted text with spans in it. The two ways lead to one tree. A
text of the host is cut at its ends, and an expression is scanned up to its closing quote; without
quotes and backslashes in the template, what is left is the template both times.

## Contents
- `inQuotes`: a template between single quotes.
- `readChars_inQuotes`: it is read as the template.
- `scan_inQuotes`, `parseTokens_text`, `ofChars_inQuotes`: and so is the expression.
- `comesTo_program_iff`: a whole expression comes to what its body comes to.
- `read_inQuotes`: the two ways agree.
-/

namespace Splice

open Splice.Span (HasSpan Segment)

/-- The text between single quotes. -/
def inQuotes (content : List Char) : List Char := '\'' :: content ++ ['\'']

namespace Node

variable {content : List Char}

/-! ## As a text -/

theorem trim_inQuotes (content : List Char) : Text.trim (inQuotes content) = inQuotes content := by
  have hstart : Text.trimStart (inQuotes content) = inQuotes content :=
    Text.trimStart_cons_of_not_blank (by decide)
  have hend : Text.trimEnd (inQuotes content) = inQuotes content :=
    Text.trimEnd_concat_of_not_blank (by decide)
  rw [Text.trim, hstart, hend]

theorem hasSpan_inQuotes (h : HasSpan content) : HasSpan (inQuotes content) := by
  obtain ⟨before, source, rest, rfl⟩ := h
  refine ⟨'\'' :: before, source, rest ++ ['\''], ?_⟩
  simp [inQuotes]

/-- A text that starts with a quote is not one span. -/
theorem singleSpan?_inQuotes (content : List Char) :
    Span.singleSpan? (inQuotes content) = none := by
  apply if_neg
  intro h
  unfold Span.isSingleSpan at h
  rw [trim_inQuotes, Bool.and_eq_true, Bool.and_eq_true] at h
  obtain ⟨tail, heq⟩ := List.isPrefixOf_iff_prefix.1 h.1.1
  injection heq with hfirst _
  exact absurd hfirst (by decide)

theorem stripQuotes_inQuotes (content : List Char) : stripQuotes (inQuotes content) = content := by
  have hlength : 2 ≤ (inQuotes content).length := by
    simp [inQuotes]
  have hlast : (inQuotes content).getLast? = some '\'' := List.getLast?_concat
  have hquotes : (2 ≤ (inQuotes content).length && (inQuotes content).head? == some '\'' &&
      (inQuotes content).getLast? == some '\'') = true := by
    rw [hlast, decide_eq_true hlength]
    rfl
  rw [stripQuotes, if_pos hquotes]
  show (content ++ ['\'']).dropLast = content
  exact List.dropLast_concat

/-- The quotes around a template do not count. -/
theorem readChars_inQuotes (h : HasSpan content) :
    readChars (inQuotes content) = templateOf ofChars content := by
  have hspans : Span.hasSpans (inQuotes content) = true :=
    Span.hasSpans_iff_hasSpan.2 (hasSpan_inQuotes h)
  rw [readChars, trim_inQuotes, singleSpan?_inQuotes]
  dsimp only
  rw [if_pos hspans, stripQuotes_inQuotes]

/-! ## As an expression -/

/-- The token of a quoted text on the first line. -/
def textToken (content : List Char) : Token :=
  { kind := .text, lexeme := String.ofList content, line := 1 }

/-- Without quotes and backslashes in it, a text goes on to the quote at its end. -/
theorem scan_inQuotes (hquote : '\'' ∉ content) (hbackslash : '\\' ∉ content) :
    scan (inQuotes content) =
      .ok [textToken content, { kind := .endOfInput, lexeme := "", line := 1 }] := by
  have hdrop : '\\' ∉ content.dropLast := fun h => hbackslash (List.mem_of_mem_dropLast h)
  have hcut : Scan.quoted '\'' (content ++ ['\'']) = some (content, []) :=
    quoted_content (.inr rfl) hquote hdrop
  have hlexes : Lexes (inQuotes content) [textToken content] [] := by
    apply Lexes.of_cut
    apply Scan.Cut.text (.inr rfl)
    rw [List.append_nil]
    exact hcut
  exact scan_of_lexes hlexes

/-- A text alone is a whole expression, whatever comes behind it. -/
theorem parseTokens_text {expand : Token → Except SourceError Node} {token : Token}
    (hk : token.kind = .text) (rest : List Token) :
    parseTokens expand (token :: rest) = (expand token).map program := by
  have hoperand : Machine.operand expand token = (expand token).map .literal := by
    unfold Machine.operand
    rw [hk]
  have hstep : Machine.step expand .initial token =
      (Machine.operand expand token).map fun focus => .more ⟨[], focus⟩ := rfl
  rw [hoperand] at hstep
  rw [parseTokens, Machine.run, hstep]
  cases expand token with
  | error e => rfl
  | ok node =>
    show (Machine.run expand ⟨[], .literal node⟩ token rest).map program = _
    rw [Grammar.run_literal]

/-- The text in the quotes is expanded as a template. -/
theorem ofChars_inQuotes (h : HasSpan content) (hquote : '\'' ∉ content)
    (hbackslash : '\\' ∉ content) :
    ofChars (inQuotes content) = (templateOf ofChars content).map program := by
  have hlexeme : (textToken content).lexeme.toList = content := String.toList_ofList
  have hspans : Span.hasSpans content = true := Span.hasSpans_iff_hasSpan.2 h
  rw [Grammar.ofChars_eq, scan_inQuotes hquote hbackslash]
  dsimp only
  rw [parseTokens_text rfl, expandText, hlexeme, if_pos hspans]

end Node

/-! ## The two ways -/

/-- A whole expression comes to what its body comes to. -/
theorem comesTo_program_iff {host : Host} {scopes : Context} {body : Node} {journal : Journal}
    {outcome : Except EvalError Value × Journal} :
    ComesTo host scopes (.program body) journal outcome ↔
      ComesTo host scopes body journal outcome := by
  constructor
  · rintro ⟨depth, hrun⟩
    cases depth with
    | zero =>
      obtain ⟨result, after⟩ := outcome
      cases result <;> cases hrun
    | succ depth => exact ⟨depth, hrun⟩
  · rintro ⟨depth, hrun⟩
    exact ⟨depth + 1, hrun⟩

/-- **A template in quotes is read alike as a text and as an expression.** If it has a span, and no
quote and no backslash in it, then the one has a tree exactly if the other one has it as a whole
expression, and the one fails with an error exactly if the other one does. So they come to the same
under every scope. -/
theorem read_inQuotes {content : String} (h : HasSpan content.toList)
    (hquote : '\'' ∉ content.toList) (hbackslash : '\\' ∉ content.toList) :
    let text := String.ofList (inQuotes content.toList)
    (∀ node, Node.read text = .ok node ↔ Node.ofExpression text = .ok (.program node)) ∧
    (∀ error, Node.read text = .error error ↔ Node.ofExpression text = .error error) ∧
    (∀ tree, Node.ofExpression text = .ok tree →
      ∃ node, tree = .program node ∧ Node.read text = .ok node) ∧
    (∀ node tree, Node.read text = .ok node → Node.ofExpression text = .ok tree →
      ∀ host context journal outcome,
        ComesTo host (Context.withBuiltins context) node journal outcome ↔
          ComesTo host (Context.withBuiltins context) tree journal outcome) := by
  intro text
  have hread : Node.read text = Node.templateOf Node.ofChars content.toList := by
    rw [Node.read, String.toList_ofList, Node.readChars_inQuotes h]
  have hexpression : Node.ofExpression text = (Node.read text).map .program := by
    rw [Node.ofExpression, String.toList_ofList, Node.ofChars_inQuotes h hquote hbackslash, hread]
  rw [hexpression]
  cases Node.read text with
  | error e =>
    refine ⟨?_, ?_, ?_, ?_⟩
    · intro node
      constructor
      · intro h
        cases h
      · intro h
        cases h
    · intro error
      exact ⟨fun heq => heq, fun heq => heq⟩
    · intro tree h
      cases h
    · intro node tree h
      cases h
  | ok node =>
    refine ⟨?_, ?_, ?_, ?_⟩
    · intro node'
      constructor
      · rintro ⟨⟩
        rfl
      · rintro ⟨⟩
        rfl
    · intro error
      constructor
      · intro h
        cases h
      · intro h
        cases h
    · rintro _ ⟨⟩
      exact ⟨node, rfl, rfl⟩
    · rintro _ _ ⟨⟩ ⟨⟩ host context journal outcome
      exact comesTo_program_iff.symm

/-- A span between double quotes, with a line feed and a closing brace behind it. -/
def doubleQuoted : Template := .hole ['"'] nameA (.text "\" \n \x7d".toList)

theorem read_inQuotes_doubleQuoted :
    let content := String.ofList doubleQuoted.source
    let text := String.ofList (inQuotes content.toList)
    HasSpan content.toList ∧ '\'' ∉ content.toList ∧ '\\' ∉ content.toList ∧
      Node.read text = .ok (.template doubleQuoted.parts) ∧
      Node.ofExpression text = .ok (.program (.template doubleQuoted.parts)) := by
  intro content text
  have hcontent : content.toList = doubleQuoted.source := String.toList_ofList
  have hspan : HasSpan content.toList := by
    rw [hcontent]
    exact ⟨['"'], nameA.chars, "\" \n \x7d".toList, rfl⟩
  have hquote : '\'' ∉ content.toList := by
    rw [hcontent]
    decide
  have hbackslash : '\\' ∉ content.toList := by
    rw [hcontent]
    decide
  have hplain : doubleQuoted.Plain :=
    ⟨Span.not_opens_of_notMem (by decide), Span.not_opens_of_notMem (by decide)⟩
  have hread : Node.read text = .ok (.template doubleQuoted.parts) := by
    rw [Node.read, String.toList_ofList, Node.readChars_inQuotes hspan, hcontent,
      Template.templateOf_source hplain]
  obtain ⟨hiff, -⟩ := read_inQuotes hspan hquote hbackslash
  exact ⟨hspan, hquote, hbackslash, hread, (hiff _).1 hread⟩

end Splice
