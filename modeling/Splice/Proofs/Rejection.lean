import Splice.Proofs.Prefixes

/-!
# `Splice.Proofs.Rejection` — where and why tokens are rejected

Tokens that are no expression are rejected at the earliest token that shows it: those in front of it
are the beginning of an expression, and with it they are not. Which error it is depends on what was
due there, and that can be said by the grammar alone.

## Contents
- `FieldDue`, `ArgumentDue`, `ArgumentRead`: what is due behind some tokens; `fieldDue_iff`,
  `argumentDue_iff` and `argumentRead_iff` say how the machine knows.
- `Clash`, `clash_of_step`: the tokens that do not fit a state.
- `exists_clash`: a run over the tokens of a text fails at a token that does not fit.
- `Blames`: the error that names a token.
- `EarliestMisfit`, `exists_earliest_misfit`: tokens are rejected at the earliest token that shows
  that they are no expression, and the error names it.
-/

namespace Splice.Grammar

open Machine (Focus OpenCall State step run finish)

variable {read : List Char → Except SourceError Node} {leaf : Token → Node → Prop}
  {state next : State} {calls : List OpenCall} {focus : Focus} {past : List Token}
  {tokens : List Token} {token last : Token} {error : SourceError} {text : List Char}

/-! ## What is due -/

/-- The name of a field is due: a chain and a dot were read last. -/
def FieldDue (leaf : Token → Node → Prop) (past : List Token) : Prop :=
  ∃ calls before w target dot, past = before ++ (w ++ [dot]) ∧ Pending leaf calls before ∧
    Chain leaf w target ∧ dot.kind = .dot

/-- An argument of a call is due, or the parenthesis that closes the call. -/
def ArgumentDue (leaf : Token → Node → Prop) (past : List Token) : Prop :=
  ∃ call calls, Pending leaf (call :: calls) past

/-- A complete argument of a call was read last: a comma is due, or the parenthesis that closes the
call. -/
def ArgumentRead (leaf : Token → Node → Prop) (past : List Token) : Prop :=
  ∃ call calls before w node, past = before ++ w ∧ Pending leaf (call :: calls) before ∧
    Expression leaf w node

theorem fieldDue_iff (hpast : ∀ token ∈ past, token.kind ≠ .endOfInput)
    (hc : consume (Node.expandText read) .initial past = some ⟨calls, focus⟩) :
    FieldDue (Leaf read) past ↔ ∃ target, focus = .field target := by
  constructor
  · rintro ⟨calls', before, w, target, dot, rfl, hp, hw, hdot⟩
    have hhand : AtHand (Leaf read) (.field target) (w ++ [dot]) := .field hw hdot
    rw [consume_append hp.consumed, hhand.consumed calls'] at hc
    cases hc
    exact ⟨target, rfl⟩
  · rintro ⟨target, rfl⟩
    obtain ⟨before, w, rfl, hp, hw⟩ := (reading_iff_consume hpast).2 hc
    cases hw with
    | field h hdot => exact ⟨calls, before, _, target, _, rfl, hp, h, hdot⟩

theorem argumentDue_iff (hpast : ∀ token ∈ past, token.kind ≠ .endOfInput)
    (hc : consume (Node.expandText read) .initial past = some ⟨calls, focus⟩) :
    ArgumentDue (Leaf read) past ↔ calls ≠ [] ∧ focus = .start := by
  constructor
  · rintro ⟨call, calls', hp⟩
    rw [hp.consumed] at hc
    cases hc
    exact ⟨nofun, rfl⟩
  · rintro ⟨hcalls, rfl⟩
    obtain ⟨before, w, rfl, hp, hw⟩ := (reading_iff_consume hpast).2 hc
    cases hw
    rw [List.append_nil]
    obtain ⟨call, calls', rfl⟩ := List.exists_cons_of_ne_nil hcalls
    exact ⟨call, calls', hp⟩

theorem argumentRead_iff (hpast : ∀ token ∈ past, token.kind ≠ .endOfInput)
    (hc : consume (Node.expandText read) .initial past = some ⟨calls, focus⟩) :
    ArgumentRead (Leaf read) past ↔ calls ≠ [] ∧ ∃ node, tree? focus = some node := by
  constructor
  · rintro ⟨call, calls', before, w, node, rfl, hp, he⟩
    obtain ⟨focus', htree, hw⟩ := he.consumed (call :: calls')
    rw [consume_append hp.consumed, hw] at hc
    cases hc
    exact ⟨nofun, node, htree⟩
  · rintro ⟨hcalls, node, htree⟩
    obtain ⟨before, w, rfl, hp, hw⟩ := (reading_iff_consume hpast).2 hc
    obtain ⟨call, calls', rfl⟩ := List.exists_cons_of_ne_nil hcalls
    exact ⟨call, calls', before, w, node, rfl, hp, hw.expression htree⟩

/-! ## Tokens that do not fit -/

/-- The token does not fit the state, for which this is the error. -/
inductive Clash (token : Token) : State → SourceError → Prop
  | field {calls : List OpenCall} {target : Node} :
      Clash token ⟨calls, .field target⟩ (.parse (.invalidFieldName token.lexeme token.line))
  /-- The token starts no expression. -/
  | start {calls : List OpenCall} (h : token.kind = .endOfInput → calls = []) :
      Clash token ⟨calls, .start⟩
        (.parse (.unexpectedToken token.kind token.lexeme token.line))
  /-- The input ends where an argument or a closing parenthesis is due. -/
  | argument {call : OpenCall} {calls : List OpenCall} (hk : token.kind = .endOfInput) :
      Clash token ⟨call :: calls, .start⟩ (.parse (.missingClosingParen token.line))
  /-- The input ends behind an argument. -/
  | closing {call : OpenCall} {calls : List OpenCall} {focus : Focus} {node : Node}
      (ht : tree? focus = some node) (hk : token.kind = .endOfInput) :
      Clash token ⟨call :: calls, focus⟩ (.parse (.missingClosingParen token.line))
  | comma {call : OpenCall} {calls : List OpenCall} {focus : Focus} {node : Node}
      (ht : tree? focus = some node) (hk : token.kind ≠ .endOfInput) :
      Clash token ⟨call :: calls, focus⟩ (.parse (.missingComma token.line))

/-- The token can be read if it is a number, and has no spans if it is a text. -/
structure Plain (token : Token) : Prop where
  integer : token.kind = .integer → ∃ i, Decimal.readInt64? 10 token.lexeme.toList = some i
  float : token.kind = .float → ∃ x, Decimal.readFloat? token.lexeme.toList = some x
  text : token.kind = .text → Span.hasSpans token.lexeme.toList = false

/-- A plain token that starts no expression is just unexpected. -/
theorem eq_unexpected_of_operand (hp : Plain token)
    (h : Machine.operand (Node.expandText read) token = .error error) :
    error = .parse (.unexpectedToken token.kind token.lexeme token.line) := by
  unfold Machine.operand at h
  split at h
  case h_1 hkind =>
    obtain ⟨i, hi⟩ := hp.integer hkind
    rw [hi] at h
    cases h
  case h_2 hkind =>
    obtain ⟨x, hx⟩ := hp.float hkind
    rw [hx] at h
    cases h
  case h_5 hkind =>
    have hspans : ¬ Span.hasSpans token.lexeme.toList = true := by
      rw [hp.text hkind]
      decide
    rw [Node.expandText, if_neg hspans] at h
    cases h
  all_goals cases h
  all_goals rfl

theorem clash_of_afterExpression {node : Node} (ht : tree? focus = some node)
    (h : Machine.afterExpression calls node token = .error error) :
    Clash token ⟨calls, focus⟩ error := by
  cases calls with
  | nil => cases h
  | cons call calls =>
    by_cases hk : token.kind = .endOfInput
    · simp only [Machine.afterExpression, hk] at h
      cases h
      exact .closing ht hk
    · simp only [Machine.afterExpression] at h
      split at h
      · cases h
      · cases h
      · next hend => exact absurd hend hk
      · cases h
        exact .comma ht hk

/-- **A step fails only on a token that does not fit.** -/
theorem clash_of_step (hp : Plain token)
    (h : step (Node.expandText read) state token = .error error) : Clash token state error := by
  obtain ⟨calls, focus⟩ := state
  cases focus with
  | start =>
    simp only [step] at h
    split at h
    · cases h
    · next call calls hend =>
      cases h
      exact .argument hend
    · next opened _ _ hright hend =>
      have hop : Machine.operand (Node.expandText read) token = .error error :=
        map_eq_error_iff.1 h
      rw [eq_unexpected_of_operand hp hop]
      refine .start ?_
      intro hk
      cases opened with
      | nil => rfl
      | cons call calls => exact absurd hk (hend call calls rfl)
  | chain node =>
    simp only [step] at h
    split at h
    · cases h
    · cases h
    · exact clash_of_afterExpression rfl h
  | field target =>
    simp only [step] at h
    split at h
    · cases h
    · cases h
      exact .field
  | literal node => exact clash_of_afterExpression rfl h

/-! ## Tokens of a text -/

/-- None of the texts among the tokens has a span. -/
def Spanless (tokens : List Token) : Prop :=
  ∀ token ∈ tokens, token.kind = .text → Span.hasSpans token.lexeme.toList = false

theorem plain_of_mem_scan (hscan : scan text = .ok tokens) (hs : Spanless tokens)
    (ht : token ∈ tokens) : Plain token := by
  obtain ⟨init, line, rfl, hinit⟩ := Scan.scan_eq_ok hscan
  refine ⟨?_, ?_, hs token ht⟩
  · intro hk
    rcases List.mem_append.1 ht with hmem | hmem
    · exact (hinit token hmem).integer hk
    · rw [List.mem_singleton.1 hmem] at hk
      cases hk
  · intro hk
    rcases List.mem_append.1 ht with hmem | hmem
    · exact (hinit token hmem).float hk
    · rw [List.mem_singleton.1 hmem] at hk
      cases hk

/-- The end of the input stands behind all other tokens of a text. -/
theorem ne_endOfInput_of_scan (hscan : scan text = .ok (past ++ token :: tokens)) :
    ∀ t ∈ past, t.kind ≠ .endOfInput := by
  obtain ⟨init, line, heq, hinit⟩ := Scan.scan_eq_ok hscan
  have hpast : past <+: init := by
    have hfront : past <+: init ++ [{ kind := .endOfInput, lexeme := "", line }] :=
      ⟨token :: tokens, heq⟩
    have hlength := congrArg List.length heq
    simp only [List.length_append, List.length_cons, List.length_nil] at hlength
    exact List.prefix_of_prefix_length_le hfront (List.prefix_append _ _) (by omega)
  intro t ht
  exact (hinit t (hpast.subset ht)).ne_endOfInput

/-- The machine does not run out of the tokens of a text before it has found a tree. -/
theorem finish_ne_error_of_scan (hscan : scan text = .ok tokens)
    (hc : consume (Node.expandText read) .initial tokens = some next) :
    finish next last ≠ .error error := by
  obtain ⟨init, line, rfl, hinit⟩ := Scan.scan_eq_ok hscan
  obtain ⟨between, hfront, hend⟩ := exists_of_consume_append hc
  have hread : Reading (Leaf read) between init :=
    (reading_iff_consume fun t ht => (hinit t ht).ne_endOfInput).2 hfront
  rw [consume] at hend
  split at hend
  · next after hstep =>
    -- the end of the input is read only where nothing stands in front of it
    obtain ⟨-, rfl⟩ := hread.endOfInput rfl hstep
    cases hend
    intro herror
    cases herror
  · cases hend

/-- A run over the tokens of a text fails at a token that does not fit. -/
theorem exists_clash (hscan : scan text = .ok tokens) (hs : Spanless tokens)
    (h : parseTokens (Node.expandText read) tokens = .error error) :
    ∃ past token rest state, tokens = past ++ token :: rest ∧
      consume (Node.expandText read) .initial past = some state ∧
      step (Node.expandText read) state token = .error error ∧ Clash token state error := by
  have hrun : run (Node.expandText read) .initial .nothing tokens = .error error :=
    map_eq_error_iff.1 h
  rcases exists_of_run_eq_error hrun with
    ⟨past, token, rest, state, rfl, hc, hstep⟩ | ⟨next, hc, hf⟩
  · have hplain : Plain token :=
      plain_of_mem_scan hscan hs (List.mem_append_right _ (List.mem_cons_self ..))
    exact ⟨past, token, rest, state, rfl, hc, hstep, clash_of_step hplain hstep⟩
  · exact absurd hf (finish_ne_error_of_scan hscan hc)

/-! ## The error -/

/-- The error names the token: it is the one for what was due behind `past`. -/
structure Blames (leaf : Token → Node → Prop) (past : List Token) (token : Token)
    (error : SourceError) : Prop where
  field : error = .parse (.invalidFieldName token.lexeme token.line) ↔ FieldDue leaf past
  closingParen : error = .parse (.missingClosingParen token.line) ↔
    token.kind = .endOfInput ∧ (ArgumentDue leaf past ∨ ArgumentRead leaf past)
  comma : error = .parse (.missingComma token.line) ↔
    token.kind ≠ .endOfInput ∧ ArgumentRead leaf past
  /-- Any other token is unexpected. -/
  unexpected : error = .parse (.unexpectedToken token.kind token.lexeme token.line) ↔
    ¬ FieldDue leaf past ∧
      ¬ (token.kind = .endOfInput ∧ (ArgumentDue leaf past ∨ ArgumentRead leaf past)) ∧
      ¬ (token.kind ≠ .endOfInput ∧ ArgumentRead leaf past)

/-- A token that does not fit is named by the error. -/
theorem Clash.blames (h : Clash token state error)
    (hpast : ∀ token ∈ past, token.kind ≠ .endOfInput)
    (hc : consume (Node.expandText read) .initial past = some state) :
    Blames (Leaf read) past token error := by
  obtain ⟨calls, focus⟩ := state
  have hfield := fieldDue_iff hpast hc
  have hdue := argumentDue_iff hpast hc
  have hread := argumentRead_iff hpast hc
  -- what is due is read off the state, and so is the error
  cases h with
  | field => constructor <;> simp [hfield, hdue, hread, tree?]
  | start hk =>
    constructor
    · simp [hfield]
    · simpa [hdue, hread, tree?] using hk
    · simp [hread, tree?]
    · simpa [hfield, hdue, hread, tree?] using hk
  | argument hk => constructor <;> simp [hfield, hdue, hread, tree?, hk]
  | closing ht hk =>
    cases focus <;> cases ht <;> constructor <;> simp [hfield, hdue, hread, tree?, hk]
  | comma ht hk =>
    cases focus <;> cases ht <;> constructor <;> simp [hfield, hdue, hread, tree?, hk]

/-- The token behind `past` is the earliest one that shows that no expression stands there. -/
structure EarliestMisfit (past : List Token) (token : Token) : Prop where
  /-- There is a text that begins with `past` and is accepted. -/
  completable : ∃ text more node, scan text = .ok (past ++ more) ∧ Spanless (past ++ more) ∧
    parseTokens (Node.expandText Node.ofChars) (past ++ more) = .ok node
  /-- With the token behind `past`, no tokens at all are accepted. -/
  hopeless : ∀ more node,
    parseTokens (Node.expandText Node.ofChars) (past ++ token :: more) ≠ .ok node

/-- **Tokens are rejected at the earliest token that shows that they are no expression.** The tokens
in front of it begin an expression that is accepted, and with it they do not. The error names this
token, and says what was due in its place. -/
theorem exists_earliest_misfit (hscan : scan text = .ok tokens) (hs : Spanless tokens)
    (h : parseTokens (Node.expandText Node.ofChars) tokens = .error error) :
    ∃ past token rest, tokens = past ++ token :: rest ∧ EarliestMisfit past token ∧
      Blames (Leaf Node.ofChars) past token error := by
  obtain ⟨past, token, rest, state, rfl, hc, hstep, hclash⟩ := exists_clash hscan hs h
  obtain ⟨text', more, node, hscan', hmore, hparse⟩ := exists_accepted_append hscan hc
  have hspanless : Spanless (past ++ more) := by
    intro t ht hk
    rcases List.mem_append.1 ht with ht | ht
    · exact hs t (List.mem_append_left _ ht) hk
    · exact absurd hk (hmore t ht)
  have hhopeless : ∀ more node,
      parseTokens (Node.expandText Node.ofChars) (past ++ token :: more) ≠ .ok node := by
    intro more node haccepted
    rw [parseTokens, run_of_step_eq_error hc hstep] at haccepted
    cases haccepted
  refine ⟨past, token, rest, rfl, ?_, hclash.blames (ne_endOfInput_of_scan hscan) hc⟩
  exact ⟨⟨text', more, node, hscan', hspanless, hparse⟩, hhopeless⟩

/-- The tokens of a call in a call, with a comma missing behind it. -/
def commaMissing : List Token :=
  [⟨.identifier, "f", 1⟩, ⟨.leftParen, "(", 1⟩, ⟨.identifier, "g", 1⟩, ⟨.leftParen, "(", 1⟩,
    ⟨.rightParen, ")", 1⟩, ⟨.identifier, "a", 1⟩, ⟨.rightParen, ")", 1⟩, ⟨.endOfInput, "", 1⟩]

theorem exists_earliest_misfit_comma :
    scan "f(g() a)".toList = .ok commaMissing ∧ Spanless commaMissing ∧
    parseTokens (Node.expandText Node.ofChars) commaMissing = .error (.parse (.missingComma 1)) ∧
    ∃ past token rest, commaMissing = past ++ token :: rest ∧ EarliestMisfit past token ∧
      Blames (Leaf Node.ofChars) past token (.parse (.missingComma 1)) := by
  have hscan : scan "f(g() a)".toList = .ok commaMissing := by decide +kernel
  have hs : Spanless commaMissing := by
    unfold Spanless
    decide
  have hparse : parseTokens (Node.expandText Node.ofChars) commaMissing =
      .error (.parse (.missingComma 1)) := rfl
  exact ⟨hscan, hs, hparse, exists_earliest_misfit hscan hs hparse⟩

end Splice.Grammar
