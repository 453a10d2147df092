import Splice.Proofs.Acceptance
import Splice.Proofs.Rescanning

/-!
# `Splice.Proofs.Prefixes` — the beginnings of expressions

The machine knows of the tokens that it has read what the grammar says about them, no more and no
less: which calls they leave open, and which expression is at hand. As long as it goes on, what it
has read is the beginning of an expression. A name may still be due; apart from that only closing
parentheses are missing, and so there is a text that begins with these tokens and is accepted.

## Contents
- `Pending.consumed`, `AtHand.consumed`, `reading_iff_consume`: the state behind some tokens is the
  one that the grammar gives them.
- `exists_of_run_eq_error`, `run_of_step_eq_error`: a run fails in a step, or at the end of the
  tokens.
- `exists_scanFrom_append`: behind some of its tokens, a text may go on in another way.
- `exists_run_closing`, `exists_completion`: what is missing in a state.
- `exists_accepted_append`: behind tokens of a text that the machine reads, there is a way to go on.
-/

namespace Splice.Grammar

open Machine (Focus OpenCall State Verdict step run finish)

variable {read : List Char → Except SourceError Node} {expand : Token → Except SourceError Node}
  {state next : State} {calls : List OpenCall} {focus : Focus} {past before v w rest : List Token}
  {tokens : List Token} {token last : Token} {error : SourceError}

/-! ## The state behind some tokens -/

/-- Reading tokens in two parts. -/
theorem exists_of_consume_append (h : consume expand state (v ++ w) = some next) :
    ∃ between, consume expand state v = some between ∧ consume expand between w = some next := by
  induction v generalizing state with
  | nil => exact ⟨state, rfl, h⟩
  | cons token v ih =>
    rw [List.cons_append, consume] at h
    split at h
    · next mid hstep =>
      obtain ⟨between, hv, hw⟩ := ih h
      refine ⟨between, ?_, hw⟩
      rw [consume_cons hstep, hv]
    · cases h

/-- Arguments with a comma behind each are read into the innermost call. -/
theorem Items.consumed (calls : List OpenCall) (callee : Node) {nodes : List Node}
    (h : Items (Leaf read) w nodes) :
    consume (Node.expandText read) ⟨⟨callee, []⟩ :: calls, .start⟩ w =
      some ⟨⟨callee, nodes⟩ :: calls, .start⟩ := by
  induction h with
  | none => rfl
  | @snoc v w nodes node comma hi he hcomma ih =>
    obtain ⟨focus, htree, hw⟩ := he.consumed (⟨callee, nodes⟩ :: calls)
    rw [consume_append ih, consume_append hw, consume_cons (step_comma htree hcomma)]
    rfl

/-- Behind the tokens that open some calls, these calls are open. -/
theorem Pending.consumed (h : Pending (Leaf read) calls before) :
    consume (Node.expandText read) .initial before = some ⟨calls, .start⟩ := by
  induction h with
  | none => rfl
  | call hp hc hopen hi ih =>
    rw [consume_append ih, consume_append (hc.consumed _), consume_cons (step_opening hopen)]
    exact hi.consumed _ _

/-- Behind the tokens of the expression at hand, it is at hand. -/
theorem AtHand.consumed (calls : List OpenCall) (h : AtHand (Leaf read) focus w) :
    consume (Node.expandText read) ⟨calls, .start⟩ w = some ⟨calls, focus⟩ := by
  cases h with
  | start => rfl
  | chain hc => exact hc.consumed calls
  | field hc hdot =>
    rw [consume_append (hc.consumed calls), consume_cons (step_dot hdot)]
    rfl
  | literal hl =>
    have hne := hl.isLeaf.ne
    rw [consume_cons (step_start ⟨hne.1, hne.2.1⟩ hl.operand)]
    rfl

/-- The machine keeps the invariant over any number of tokens. -/
theorem Reading.of_consume (h : Reading (Leaf read) state past)
    (hw : ∀ token ∈ w, token.kind ≠ .endOfInput)
    (hc : consume (Node.expandText read) state w = some next) :
    Reading (Leaf read) next (past ++ w) := by
  induction w generalizing state past with
  | nil =>
    cases hc
    rw [List.append_nil]
    exact h
  | cons token w ih =>
    rw [consume] at hc
    split at hc
    · next mid hstep =>
      have hmid : Reading (Leaf read) mid (past ++ [token]) :=
        h.step (hw token (List.mem_cons_self ..)) hstep
      have hrest := ih hmid (fun t ht => hw t (List.mem_cons_of_mem _ ht)) hc
      rwa [List.append_assoc] at hrest
    · cases hc

/-- **The machine's state behind some tokens is the one that the grammar gives them.** -/
theorem reading_iff_consume (hpast : ∀ token ∈ past, token.kind ≠ .endOfInput) :
    Reading (Leaf read) state past ↔
      consume (Node.expandText read) .initial past = some state := by
  constructor
  · rintro ⟨before, w, rfl, hp, hw⟩
    rw [consume_append hp.consumed]
    exact hw.consumed state.calls
  · intro hc
    have hread : Reading (Leaf read) state ([] ++ past) := Reading.initial.of_consume hpast hc
    exact hread

/-! ## Where a run fails -/

/-- A run that fails does so in a step, or when the tokens run out. -/
theorem exists_of_run_eq_error (h : run expand state last tokens = .error error) :
    (∃ past token rest next, tokens = past ++ token :: rest ∧
      consume expand state past = some next ∧ step expand next token = .error error) ∨
    ∃ next, consume expand state tokens = some next ∧
      finish next (tokens.getLastD last) = .error error := by
  induction tokens generalizing state last with
  | nil => exact .inr ⟨state, rfl, h⟩
  | cons token tokens ih =>
    rw [run] at h
    split at h
    · next mid hstep =>
      rcases ih h with ⟨past, bad, rest, next, rfl, hc, hs⟩ | ⟨next, hc, hf⟩
      · refine .inl ⟨token :: past, bad, rest, next, rfl, ?_, hs⟩
        rw [consume_cons hstep, hc]
      · refine .inr ⟨next, ?_, ?_⟩
        · rw [consume_cons hstep, hc]
        · rw [List.getLastD_cons]
          exact hf
    · cases h
    · next hstep =>
      cases h
      exact .inl ⟨[], token, tokens, state, rfl, rfl, hstep⟩

/-- A step that fails is a failure whatever comes behind it. -/
theorem run_of_step_eq_error (hc : consume expand state past = some next)
    (hs : step expand next token = .error error) :
    run expand state last (past ++ token :: rest) = .error error := by
  rw [run_append hc, run, hs]

/-! ## Other texts with the same beginning -/

variable {line : Int} {text : List Char}

/-- Behind some of its tokens, written out, a text may go on in another way. -/
theorem exists_scanFrom_append (h : Covers line text (past ++ token :: rest)) :
    ∃ line', ∀ tail, Scan.scanFrom line (Token.renderAll past ++ tail) =
      (Scan.scanFrom line' tail).map (past ++ ·) := by
  generalize htokens : past ++ token :: rest = tokens at h
  induction h generalizing past with
  | blank hblank hc h ih => exact ih htokens
  | @endOfInput line =>
    cases past with
    | nil =>
      refine ⟨line, fun tail => ?_⟩
      show Scan.scanFrom line tail = _
      cases Scan.scanFrom line tail <;> rfl
    | cons first past =>
      injection htokens with _ htokens
      exact absurd htokens (List.append_ne_nil_of_right_ne_nil _ (List.cons_ne_nil _ _))
  | @token line piece behind first tokens hpiece hline h ih =>
    cases past with
    | nil =>
      refine ⟨line, fun tail => ?_⟩
      show Scan.scanFrom line tail = _
      cases Scan.scanFrom line tail <;> rfl
    | cons first past =>
      injection htokens with hfirst htokens
      subst hfirst
      obtain ⟨line', hline'⟩ := ih htokens
      refine ⟨line', fun tail => ?_⟩
      rw [Token.renderAll_cons hpiece.ne_endOfInput, List.append_assoc, List.cons_append,
        hpiece.scanFrom_render hline, hline']
      cases Scan.scanFrom line' tail <;> rfl

/-! ## What is missing -/

/-- A closing parenthesis. -/
def closing (line : Int) : Token := { kind := .rightParen, lexeme := ")", line }

/-- The end of the input. -/
def inputEnd (line : Int) : Token := { kind := .endOfInput, lexeme := "", line }

theorem scanFrom_closing (line : Int) (n : Nat) :
    Scan.scanFrom line (List.replicate n ')') =
      .ok (List.replicate n (closing line) ++ [inputEnd line]) := by
  induction n with
  | zero =>
    show Scan.scanFrom line [] = _
    rw [Scan.scanFrom]
    rfl
  | succ n ih =>
    have hcut : Scan.Cut line ')' (List.replicate n ')') (closing line) line
        (List.replicate n ')') := .mark rfl
    rw [List.replicate_succ, Scan.scanFrom_of_cut hcut, ih]
    rfl

/-- The name that stands where one is due. -/
def someName (line : Int) : Token := { kind := .identifier, lexeme := "x", line }

theorem scanFrom_someName (line : Int) (tail : List Char) :
    Scan.scanFrom line ('x' :: ' ' :: tail) =
      (Scan.scanFrom line tail).map (someName line :: ·) := by
  have hcut : Scan.Cut line 'x' ([] ++ ' ' :: tail) (someName line) line (' ' :: tail) :=
    cut_of_word rfl (fun d hd => absurd hd List.not_mem_nil) (endsWord_cons rfl) line
  have hscan := Scan.scanFrom_of_cut hcut
  rwa [scanFrom_space] at hscan

/-- No name is due: a closing parenthesis may follow, if a call is open. -/
def Closable (focus : Focus) : Prop := ∀ target, focus ≠ .field target

/-- A closing parenthesis closes the innermost call. -/
theorem exists_step_closing (expand : Token → Except SourceError Node) (call : OpenCall)
    (calls : List OpenCall) (line : Int) (h : Closable focus) :
    ∃ node, step expand ⟨call :: calls, focus⟩ (closing line) =
      .ok (.more ⟨calls, .chain node⟩) := by
  cases focus with
  | start => exact ⟨call.close [], rfl⟩
  | chain node => exact ⟨call.close [node], rfl⟩
  | field target => exact absurd rfl (h target)
  | literal node => exact ⟨call.close [node], rfl⟩

/-- A parenthesis for each of the open calls closes them all. -/
theorem exists_run_closing (expand : Token → Except SourceError Node) (calls : List OpenCall)
    (last : Token) (line : Int) (h : Closable focus) :
    ∃ node, run expand ⟨calls, focus⟩ last
      (List.replicate calls.length (closing line) ++ [inputEnd line]) = .ok node := by
  induction calls generalizing focus last with
  | nil =>
    cases focus with
    | start => exact ⟨Node.ofText "", rfl⟩
    | chain node => exact ⟨node, rfl⟩
    | field target => exact absurd rfl (h target)
    | literal node => exact ⟨node, rfl⟩
  | cons call calls ih =>
    obtain ⟨closed, hstep⟩ := exists_step_closing expand call calls line h
    have hclosed : Closable (.chain closed) := nofun
    obtain ⟨node, hrun⟩ := ih (closing line) hclosed
    refine ⟨node, ?_⟩
    rw [List.length_cons, List.replicate_succ, List.cons_append, run, hstep]
    exact hrun

theorem kind_ne_text_of_mem_closing {n : Nat}
    (h : token ∈ List.replicate n (closing line) ++ [inputEnd line]) : token.kind ≠ .text := by
  rcases List.mem_append.1 h with h | h
  · rw [List.eq_of_mem_replicate h]
    nofun
  · rw [List.mem_singleton.1 h]
    nofun

/-- In every state there is a text that completes the expression. No quotes are in it. -/
theorem exists_completion (expand : Token → Except SourceError Node) (state : State) :
    ∃ text, ∀ line, ∃ more, Scan.scanFrom line text = .ok more ∧
      (∀ token ∈ more, token.kind ≠ .text) ∧
      ∀ last, ∃ node, run expand state last more = .ok node := by
  obtain ⟨calls, focus⟩ := state
  by_cases h : Closable focus
  · refine ⟨List.replicate calls.length ')', ?_⟩
    intro line
    refine ⟨_, scanFrom_closing line _, ?_, ?_⟩
    · intro token ht
      exact kind_ne_text_of_mem_closing ht
    · intro last
      exact exists_run_closing expand calls last line h
  · -- a dot was read last, and any name may follow it
    obtain ⟨target, hfocus⟩ := not_forall.1 h
    obtain rfl : focus = .field target := not_not.1 hfocus
    refine ⟨'x' :: ' ' :: List.replicate calls.length ')', ?_⟩
    intro line
    have hscan : Scan.scanFrom line ('x' :: ' ' :: List.replicate calls.length ')') =
        .ok (someName line :: (List.replicate calls.length (closing line) ++ [inputEnd line])) := by
      rw [scanFrom_someName, scanFrom_closing]
      rfl
    refine ⟨_, hscan, ?_, ?_⟩
    · intro token ht
      rcases List.mem_cons.1 ht with rfl | ht
      · nofun
      · exact kind_ne_text_of_mem_closing ht
    · intro last
      have hname : Closable (.chain (.access target (someName line))) := nofun
      obtain ⟨node, hrun⟩ := exists_run_closing expand calls (someName line) line hname
      exact ⟨node, hrun⟩

/-- **Every beginning can be completed.** If the machine goes on behind some tokens of a text, then
there is a text that begins with the same tokens and is accepted. -/
theorem exists_accepted_append (hscan : scan text = .ok (past ++ token :: rest))
    (hc : consume expand .initial past = some state) :
    ∃ text' more node, scan text' = .ok (past ++ more) ∧ (∀ t ∈ more, t.kind ≠ .text) ∧
      parseTokens expand (past ++ more) = .ok node := by
  obtain ⟨tail, htail⟩ := exists_completion expand state
  obtain ⟨line, hline⟩ := exists_scanFrom_append (Scan.covers_of_scanFrom hscan)
  obtain ⟨more, hmore, hplain, hrun⟩ := htail line
  obtain ⟨node, hnode⟩ := hrun (past.getLastD .nothing)
  refine ⟨Token.renderAll past ++ tail, more, .program node, ?_, hplain, ?_⟩
  · rw [scan, hline tail, hmore]
    rfl
  · rw [parseTokens, run_append hc, hnode]
    rfl

end Splice.Grammar
