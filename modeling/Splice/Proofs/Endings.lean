import Splice.Proofs.Prefixes

/-!
# `Splice.Proofs.Endings` — tokens without the end of the input

The tokens of a text have the end of the input behind them, but a host may hand over tokens without
it. When they run out, the machine reads the last of them as if it stood there again. That makes no
difference, unless this token is a closing parenthesis and further calls are open: then it closes
all of these as well, and tokens are accepted that lack the parentheses of some calls.

## Contents
- `run_of_consume_eq_none`, `run_end_eq_ok_iff`, `finish_eq_ok_iff`: runs with the end of the input
  and without it.
- `LeftOpen`: calls are open behind a closing parenthesis; `leftOpen_iff` says how the machine
  knows.
- `run_closing`: what the missing parentheses would make of the tokens.
- `parseTokens_without_end`: when the end of the input makes a difference, and which one.
-/

namespace Splice.Grammar

open Machine (Focus OpenCall State step run finish closeAll)

variable {read : List Char → Except SourceError Node} {expand : Token → Except SourceError Node}
  {leaf : Token → Node → Prop} {state : State} {calls : List OpenCall} {focus : Focus}
  {tokens w rest : List Token} {last eof : Token} {node : Node} {missing : Nat}

/-! ## Two ways to end -/

/-- A run that ends among some tokens does not see what comes behind them. -/
theorem run_of_consume_eq_none (h : consume expand state w = none) :
    run expand state last (w ++ rest) = run expand state last w := by
  induction w generalizing state last with
  | nil => cases h
  | cons token w ih =>
    rw [consume] at h
    rw [List.cons_append, run, run]
    cases hstep : step expand state token with
    | error e => rfl
    | ok verdict =>
      rw [hstep] at h
      cases verdict with
      | more next => exact ih h
      | found node => rfl

/-- A run that does not end among the tokens ends where they run out. -/
theorem run_of_consume {next : State} (h : consume expand state w = some next) :
    run expand state last w = finish next (w.getLastD last) := by
  have hrun : run expand state last (w ++ []) = run expand next (w.getLastD last) [] :=
    run_append h
  rwa [List.append_nil, run] at hrun

/-- At the end of the input there is a tree only if no call is open. -/
theorem run_end_eq_ok_iff (heof : eof.kind = .endOfInput) :
    run expand ⟨calls, focus⟩ last [eof] = .ok node ↔ calls = [] ∧
      (tree? focus = some node ∨ (focus = .start ∧ node = Node.ofText eof.lexeme)) := by
  cases calls with
  | nil =>
    cases focus with
    | start => simp [run, step, Machine.operand, Except.map, heof, finish, tree?, eq_comm]
    | chain tree => simp [run, step, Machine.afterExpression, heof, tree?]
    | field target => simp [run, step, heof, tree?]
    | literal tree => simp [run, step, Machine.afterExpression, tree?]
  | cons call calls =>
    cases focus <;> simp [run, step, Machine.afterExpression, heof]

/-- Where the tokens run out there is also a tree if the last of them is a closing parenthesis. -/
theorem finish_eq_ok_iff :
    finish ⟨calls, focus⟩ last = .ok node ↔
      (calls = [] ∧
        (tree? focus = some node ∨ (focus = .start ∧ node = Node.ofText last.lexeme))) ∨
      (calls ≠ [] ∧ last.kind = .rightParen ∧
        ∃ tree, tree? focus = some tree ∧ node = closeAll tree calls) := by
  cases calls with
  | nil => cases focus <;> simp [finish, tree?, eq_comm]
  | cons call calls =>
    by_cases hlast : last.kind = .rightParen
    · cases focus <;> simp [finish, tree?, hlast, eq_comm]
    · cases focus <;> simp [finish, hlast]

/-! ## Open calls behind a closing parenthesis -/

/-- As many calls are open as are missing, and the chain at hand ends with a closing parenthesis. -/
def LeftOpen (leaf : Token → Node → Prop) (missing : Nat) (tokens : List Token) : Prop :=
  ∃ calls before w node close, tokens = before ++ (w ++ [close]) ∧ calls.length = missing ∧
    Pending leaf calls before ∧ Chain leaf (w ++ [close]) node ∧ close.kind = .rightParen

/-- Where calls are left open, the machine goes on. -/
theorem LeftOpen.consumed (h : LeftOpen (Leaf read) missing tokens) :
    ∃ calls node, consume (Node.expandText read) .initial tokens = some ⟨calls, .chain node⟩ ∧
      calls.length = missing ∧ (tokens.getLastD .nothing).kind = .rightParen := by
  obtain ⟨calls, before, w, node, close, rfl, hlength, hp, hc, hclose⟩ := h
  refine ⟨calls, node, ?_, hlength, ?_⟩
  · rw [consume_append hp.consumed]
    exact hc.consumed calls
  · rw [← List.append_assoc, List.getLastD_eq_getLast?, List.getLast?_concat]
    exact hclose

theorem leftOpen_iff (htokens : ∀ token ∈ tokens, token.kind ≠ .endOfInput)
    (hc : consume (Node.expandText read) .initial tokens = some ⟨calls, focus⟩) :
    LeftOpen (Leaf read) missing tokens ↔ calls.length = missing ∧
      (∃ node, tree? focus = some node) ∧ (tokens.getLastD .nothing).kind = .rightParen := by
  constructor
  · intro h
    obtain ⟨calls', node, hc', hlength, hlast⟩ := h.consumed
    rw [hc] at hc'
    cases hc'
    exact ⟨hlength, ⟨node, rfl⟩, hlast⟩
  · rintro ⟨hlength, ⟨node, htree⟩, hlast⟩
    obtain ⟨before, w, rfl, hp, hw⟩ := (reading_iff_consume htokens).2 hc
    cases hw with
    | start => cases htree
    | field => cases htree
    | @literal token _ hl =>
      -- the last token is the literal, and that is no parenthesis
      rw [List.getLastD_eq_getLast?, List.getLast?_concat] at hlast
      exact absurd hlast hl.isLeaf.ne.1
    | chain hchain =>
      obtain ⟨name, tail, rfl, -⟩ := hchain.head
      obtain ⟨w, close, hw⟩ :=
        (List.eq_nil_or_concat (name :: tail)).resolve_left (List.cons_ne_nil name tail)
      rw [hw, List.concat_eq_append] at hlast hchain ⊢
      rw [← List.append_assoc, List.getLastD_eq_getLast?, List.getLast?_concat] at hlast
      exact ⟨calls, before, w, _, close, rfl, hlength, hp, hchain, hlast⟩

/-- The parentheses of all open calls, and the end of the input, close one call after the other. -/
theorem run_closing (heof : eof.kind = .endOfInput) (htree : tree? focus = some node) (line : Int) :
    run expand ⟨calls, focus⟩ last (List.replicate calls.length (closing line) ++ [eof]) =
      .ok (closeAll node calls) := by
  induction calls generalizing focus node last with
  | nil => exact (run_end_eq_ok_iff heof).2 ⟨rfl, .inl htree⟩
  | cons call calls ih =>
    have hclosing : (closing line).kind ≠ .leftParen ∧ (closing line).kind ≠ .dot := ⟨nofun, nofun⟩
    have hstep : step expand ⟨call :: calls, focus⟩ (closing line) =
        .ok (.more ⟨calls, .chain (call.close [node])⟩) := step_of_tree? htree hclosing
    rw [List.length_cons, List.replicate_succ, List.cons_append, run, hstep]
    exact ih rfl

/-! ## With the end of the input and without it -/

/-- Where the machine goes on behind the tokens, they are accepted with the end of the input behind
them if they are accepted without it and no call is open. -/
theorem parseTokens_end_eq_ok_iff (htokens : ∀ token ∈ tokens, token.kind ≠ .endOfInput)
    (heof : eof.kind = .endOfInput) (hlexeme : eof.lexeme = "")
    (hc : consume (Node.expandText read) .initial tokens = some ⟨calls, focus⟩) :
    parseTokens (Node.expandText read) (tokens ++ [eof]) = .ok node ↔
      calls = [] ∧ parseTokens (Node.expandText read) tokens = .ok node := by
  have hstart : calls = [] → focus = .start → tokens = [] := by
    rintro rfl rfl
    obtain ⟨before, w, rfl, hp, hw⟩ := (reading_iff_consume htokens).2 hc
    cases hp
    cases hw
    rfl
  rw [parseTokens, parseTokens, run_append hc, run_of_consume hc, map_eq_ok_iff, map_eq_ok_iff]
  simp only [run_end_eq_ok_iff heof, finish_eq_ok_iff]
  constructor
  · rintro ⟨tree, ⟨hcalls, htree | ⟨hfocus, rfl⟩⟩, rfl⟩
    · exact ⟨hcalls, tree, .inl ⟨hcalls, .inl htree⟩, rfl⟩
    · rw [hstart hcalls hfocus, hlexeme]
      exact ⟨hcalls, _, .inl ⟨hcalls, .inr ⟨hfocus, rfl⟩⟩, rfl⟩
  · rintro ⟨hcalls, tree, ⟨-, htree | ⟨hfocus, rfl⟩⟩ | ⟨hopen, -⟩, rfl⟩
    · exact ⟨tree, ⟨hcalls, .inl htree⟩, rfl⟩
    · rw [hstart hcalls hfocus, hlexeme]
      exact ⟨_, ⟨hcalls, .inr ⟨hfocus, rfl⟩⟩, rfl⟩
    · exact absurd hcalls hopen

/-- Tokens that leave calls open behind a closing parenthesis are accepted as if it were there for
each of these calls. -/
theorem LeftOpen.exists_tree (h : LeftOpen (Leaf read) missing tokens) (hmissing : missing ≠ 0)
    (heof : eof.kind = .endOfInput) :
    ∃ node, parseTokens (Node.expandText read) tokens = .ok node ∧
      ∀ line, parseTokens (Node.expandText read)
        (tokens ++ (List.replicate missing (closing line) ++ [eof])) = .ok node := by
  obtain ⟨calls, tree, hc, rfl, hlast⟩ := h.consumed
  have hcalls : calls ≠ [] := fun hnil => hmissing (congrArg List.length hnil)
  refine ⟨.program (closeAll tree calls), ?_, fun line => ?_⟩
  · rw [parseTokens, run_of_consume hc, finish_eq_ok_iff.2 (.inr ⟨hcalls, hlast, tree, rfl, rfl⟩)]
    rfl
  · rw [parseTokens, run_append hc, run_closing heof rfl]
    rfl

/-- With the end of the input behind them they are rejected. -/
theorem LeftOpen.rejected (h : LeftOpen (Leaf read) missing tokens) (hmissing : missing ≠ 0)
    (heof : eof.kind = .endOfInput) :
    parseTokens (Node.expandText read) (tokens ++ [eof]) =
      .error (.parse (.missingClosingParen eof.line)) := by
  obtain ⟨calls, tree, hc, rfl, -⟩ := h.consumed
  obtain ⟨call, calls, rfl⟩ := List.exists_cons_of_length_pos (Nat.pos_of_ne_zero hmissing)
  rw [parseTokens, run_append hc]
  simp [run, step, Machine.afterExpression, heof, Except.map]

/-- **The end of the input makes a difference only behind a closing parenthesis.** What is accepted
with the end of the input behind it is accepted without it, with the same tree. The converse holds
unless calls are left open behind a closing parenthesis. If they are, the tokens are accepted as if
this parenthesis were there once more for each of these calls, while with the end of the input
behind them they are rejected, because a parenthesis is missing. -/
theorem parseTokens_without_end (htokens : ∀ token ∈ tokens, token.kind ≠ .endOfInput)
    (heof : eof.kind = .endOfInput) (hlexeme : eof.lexeme = "") :
    let parse := parseTokens (Node.expandText read)
    (∀ node, parse (tokens ++ [eof]) = .ok node → parse tokens = .ok node) ∧
    ((∀ node, parse tokens = .ok node → parse (tokens ++ [eof]) = .ok node) ↔
      ∀ missing, LeftOpen (Leaf read) missing tokens → missing = 0) ∧
    ∀ missing, LeftOpen (Leaf read) missing tokens → missing ≠ 0 →
      parse (tokens ++ [eof]) = .error (.parse (.missingClosingParen eof.line)) ∧
      ∃ node, parse tokens = .ok node ∧
        ∀ line, parse (tokens ++ (List.replicate missing (closing line) ++ [eof])) = .ok node := by
  intro parse
  refine ⟨?_, ⟨?_, ?_⟩, ?_⟩
  · intro node h
    cases hc : consume (Node.expandText read) .initial tokens with
    | none =>
      show parseTokens _ tokens = _
      rw [parseTokens, ← run_of_consume_eq_none hc]
      exact h
    | some state => exact ((parseTokens_end_eq_ok_iff htokens heof hlexeme hc).1 h).2
  · intro h missing hopen
    by_contra hmissing
    obtain ⟨node, htree, -⟩ := hopen.exists_tree hmissing heof
    have hrejected := (hopen.rejected hmissing heof).symm.trans (h node htree)
    cases hrejected
  · intro h node hnode
    cases hc : consume (Node.expandText read) .initial tokens with
    | none =>
      show parseTokens _ (tokens ++ [eof]) = _
      rw [parseTokens, run_of_consume_eq_none hc]
      exact hnode
    | some state =>
      obtain ⟨calls, focus⟩ := state
      refine (parseTokens_end_eq_ok_iff htokens heof hlexeme hc).2 ⟨?_, hnode⟩
      obtain ⟨tree, htree, -⟩ := map_eq_ok_iff.1 hnode
      rw [run_of_consume hc] at htree
      rcases finish_eq_ok_iff.1 htree with ⟨hcalls, -⟩ | ⟨-, hlast, tree, htree, -⟩
      · exact hcalls
      · exact List.length_eq_zero_iff.1
          (h _ ((leftOpen_iff htokens hc).2 ⟨rfl, ⟨tree, htree⟩, hlast⟩))
  · intro missing hopen hmissing
    exact ⟨hopen.rejected hmissing heof, hopen.exists_tree hmissing heof⟩

/-- The tokens of a call in the arguments of another one, whose closing parenthesis is missing. -/
def innerClosed : List Token :=
  [⟨.identifier, "f", 1⟩, ⟨.leftParen, "(", 1⟩, ⟨.identifier, "g", 1⟩, ⟨.leftParen, "(", 1⟩,
    ⟨.rightParen, ")", 1⟩]

theorem parseTokens_without_end_innerClosed :
    let parse := parseTokens (Node.expandText Node.ofChars)
    (∀ token ∈ innerClosed, token.kind ≠ .endOfInput) ∧
      LeftOpen (Leaf Node.ofChars) 1 innerClosed ∧
      parse (innerClosed ++ [inputEnd 1]) = .error (.parse (.missingClosingParen 1)) ∧
      ∃ node, parse innerClosed = .ok node ∧
        parse (innerClosed ++ [closing 1, inputEnd 1]) = .ok node := by
  intro parse
  have htokens : ∀ token ∈ innerClosed, token.kind ≠ .endOfInput := by decide
  have hopen : LeftOpen (Leaf Node.ofChars) 1 innerClosed :=
    (leftOpen_iff htokens rfl).2 ⟨rfl, ⟨_, rfl⟩, rfl⟩
  obtain ⟨-, -, hleft⟩ :=
    @parseTokens_without_end Node.ofChars innerClosed (inputEnd 1) htokens rfl rfl
  obtain ⟨hrejected, node, hnode, hclosed⟩ := hleft 1 hopen Nat.one_ne_zero
  exact ⟨htokens, hopen, hrejected, node, hnode, hclosed 1⟩

end Splice.Grammar
