import Splice.Proofs.Grammar

/-!
# `Splice.Proofs.Recognition` — the machine reads exactly the grammar

The machine keeps the calls that it is still reading on a stack. *Completeness* runs it over the
tokens of an expression, under any stack: it comes out with the tree of the expression at hand and
the stack as it was. *Soundness* carries an invariant along a run: at every moment the tokens read
so far are those of the open calls, one behind the other, and those of the expression at hand.

## Contents
- `consume`: the state behind some tokens; `run_append` cuts a run in two.
- `Expression.consumed`, `Chain.consumed`, `Arguments.consumed`: completeness, one for each symbol.
- `parseTokens_of_ends`, `Expression.unique`: an expression is found whatever follows it, and so it
  has one tree.
- `Pending`, `AtHand`, `Reading`: the invariant; `Reading.step` preserves it.
- `Reading.run`: what a run finds in front of the end of the input is an expression.
-/

namespace Splice.Grammar

open Machine (Focus OpenCall State Verdict step run finish afterExpression)

variable {read : List Char → Except SourceError Node}

/-! ## Running over a part of the tokens -/

/-- The state behind the given tokens, if the machine still goes on there. -/
def consume (expand : Token → Except SourceError Node) (state : State) :
    List Token → Option State
  | [] => some state
  | token :: tokens =>
    match step expand state token with
    | .ok (.more next) => consume expand next tokens
    | _ => none

variable {expand : Token → Except SourceError Node} {state next : State} {token last : Token}
  {v w rest : List Token} {calls : List OpenCall} {node : Node}

theorem consume_cons (h : step expand state token = .ok (.more next)) :
    consume expand state (token :: w) = consume expand next w := by
  rw [consume, h]

theorem consume_append (h : consume expand state v = some next) :
    consume expand state (v ++ w) = consume expand next w := by
  induction v generalizing state with
  | nil =>
    rw [Option.some.inj h]
    rfl
  | cons token v ih =>
    rw [consume] at h
    split at h
    · next mid hstep =>
      rw [List.cons_append, consume_cons hstep]
      exact ih h
    · cases h

/-- A run goes on from the state behind the tokens that it has read. -/
theorem run_append (h : consume expand state w = some next) :
    run expand state last (w ++ rest) = run expand next (w.getLastD last) rest := by
  induction w generalizing state last with
  | nil =>
    rw [Option.some.inj h]
    rfl
  | cons token w ih =>
    rw [consume] at h
    split at h
    · next mid hstep =>
      rw [List.cons_append, run, hstep, List.getLastD_cons]
      exact ih h
    · cases h

/-! ## Steps -/

/-- The expression at hand, if there is a whole one. -/
def tree? : Focus → Option Node
  | .chain node | .literal node => some node
  | .start | .field _ => none

/-- Behind a whole expression the machine looks at the token, unless the expression is a chain that
the token extends. -/
theorem step_of_tree? {focus : Focus} (h : tree? focus = some node)
    (hk : token.kind ≠ .leftParen ∧ token.kind ≠ .dot) :
    step expand ⟨calls, focus⟩ token = afterExpression calls node token := by
  cases focus with
  | start => cases h
  | field target => cases h
  | literal literal =>
    rw [← Option.some.inj h]
    rfl
  | chain chain =>
    rw [← Option.some.inj h]
    unfold step
    dsimp only
    split
    · next hleft => exact absurd hleft hk.1
    · next hdot => exact absurd hdot hk.2
    · rfl

/-- Where an expression is due, the machine asks what the token stands for. -/
theorem step_operand (hk : token.kind ≠ .rightParen ∧ token.kind ≠ .endOfInput) :
    step expand ⟨calls, .start⟩ token =
      (Machine.operand expand token).map fun focus => .more ⟨calls, focus⟩ := by
  unfold step
  dsimp only
  split
  · next hright => exact absurd hright hk.1
  · next hend => exact absurd hend hk.2
  · rfl

/-- A token that starts an expression does so among the arguments of a call, too. -/
theorem step_start {focus : Focus} (hk : token.kind ≠ .rightParen ∧ token.kind ≠ .endOfInput)
    (h : Machine.operand expand token = .ok focus) :
    step expand ⟨calls, .start⟩ token = .ok (.more ⟨calls, focus⟩) := by
  rw [step_operand hk, h]
  rfl

/-- An opening parenthesis behind a chain opens a call. -/
theorem step_opening (h : token.kind = .leftParen) :
    step expand ⟨calls, .chain node⟩ token = .ok (.more ⟨⟨node, []⟩ :: calls, .start⟩) := by
  simp only [step, h]

/-- Behind a chain and a dot, a name is due. -/
theorem step_dot (h : token.kind = .dot) :
    step expand ⟨calls, .chain node⟩ token = .ok (.more ⟨calls, .field node⟩) := by
  simp only [step, h]

/-- A comma makes a whole expression an argument of the innermost call. -/
theorem step_comma {focus : Focus} {callee : Node} {before : List Node}
    (ht : tree? focus = some node) (h : token.kind = .comma) :
    step expand ⟨⟨callee, before⟩ :: calls, focus⟩ token =
      .ok (.more ⟨⟨callee, before ++ [node]⟩ :: calls, .start⟩) := by
  rw [step_of_tree? ht (by rw [h]; decide)]
  simp only [afterExpression, h]

/-! ## Completeness -/

mutual

/-- The machine reads an expression under any open calls, and has its tree at hand behind it. -/
theorem Expression.consumed (calls : List OpenCall) {w : List Token} {node : Node} :
    Expression (Leaf read) w node → ∃ focus, tree? focus = some node ∧
      consume (Node.expandText read) ⟨calls, .start⟩ w = some ⟨calls, focus⟩
  | .leaf h => by
    have hne := h.isLeaf.ne
    exact ⟨.literal node, rfl, consume_cons (step_start ⟨hne.1, hne.2.1⟩ h.operand)⟩
  | .chain h => ⟨.chain node, rfl, h.consumed calls⟩

theorem Chain.consumed (calls : List OpenCall) {w : List Token} {node : Node} :
    Chain (Leaf read) w node →
      consume (Node.expandText read) ⟨calls, .start⟩ w = some ⟨calls, .chain node⟩
  | @Chain.name _ token hk => by
    have hstart : token.kind ≠ .rightParen ∧ token.kind ≠ .endOfInput := by
      rw [hk]
      decide
    exact consume_cons (step_start hstart (by unfold Machine.operand; rw [hk]))
  | @Chain.access _ w target dot field h hdot hfield => by
    rw [consume_append (h.consumed calls)]
    have hf : step (Node.expandText read) ⟨calls, .field target⟩ field =
        .ok (.more ⟨calls, .chain (.access target field)⟩) := by
      simp only [step, hfield]
    rw [consume_cons (step_dot hdot), consume_cons hf]
    rfl
  | @Chain.call _ w inner callee arguments opening closing h hopen ha hclose => by
    rw [List.append_assoc, consume_append (h.consumed calls), List.cons_append,
      consume_cons (step_opening hopen)]
    -- the call is open now, and the closing parenthesis is read with its arguments
    exact ha.consumed calls callee [] hclose

/-- The closing parenthesis behind the arguments closes the call, those read before included. -/
theorem Arguments.consumed (calls : List OpenCall) (callee : Node) (before : List Node)
    {w : List Token} {nodes : List Node} {closing : Token} (hclose : closing.kind = .rightParen) :
    Arguments (Leaf read) w nodes →
      consume (Node.expandText read) ⟨⟨callee, before⟩ :: calls, .start⟩ (w ++ [closing]) =
        some ⟨calls, .chain (.call callee (before ++ nodes))⟩
  | .none => by
    have hc : step (Node.expandText read) ⟨⟨callee, before⟩ :: calls, .start⟩ closing =
        .ok (.more ⟨calls, .chain (.call callee (before ++ []))⟩) := by
      simp only [step, hclose]
      rfl
    rw [List.nil_append, consume_cons hc]
    rfl
  | @Arguments.last _ w node h => by
    obtain ⟨focus, ht, hw⟩ := h.consumed (⟨callee, before⟩ :: calls)
    have hc : step (Node.expandText read) ⟨⟨callee, before⟩ :: calls, focus⟩ closing =
        .ok (.more ⟨calls, .chain (.call callee (before ++ [node]))⟩) := by
      rw [step_of_tree? ht (by rw [hclose]; decide)]
      simp only [afterExpression, hclose]
      rfl
    rw [consume_append hw, consume_cons hc]
    rfl
  | @Arguments.more _ w rest node nodes comma h hcomma hrest => by
    obtain ⟨focus, ht, hw⟩ := h.consumed (⟨callee, before⟩ :: calls)
    rw [List.append_assoc, consume_append hw, List.cons_append, consume_cons (step_comma ht hcomma),
      hrest.consumed calls callee (before ++ [node]) hclose, List.append_assoc]
    rfl

end

/-- Without open calls, a literal is the answer whatever comes next. -/
theorem run_literal : run expand ⟨[], .literal node⟩ last rest = .ok node := by
  cases rest <;> rfl

/-- Without open calls, a chain is the answer unless it is extended. -/
theorem run_chain (h : Stops rest) : run expand ⟨[], .chain node⟩ last rest = .ok node := by
  cases rest with
  | nil => rfl
  | cons next rest =>
    have hk := h next rfl
    rw [run, step_of_tree? rfl hk]
    rfl

/-- **Completeness.** An expression is found in front of any tokens, none of which belongs to it. -/
theorem parseTokens_of_ends (h : Ends (Leaf read) w rest node) :
    parseTokens (Node.expandText read) (w ++ rest) = .ok (.program node) := by
  have hrun : run (Node.expandText read) .initial .nothing (w ++ rest) = .ok node := by
    obtain ⟨he, hstop⟩ := h
    cases he with
    | leaf hl =>
      have hw : consume (Node.expandText read) .initial [_] = some ⟨[], .literal node⟩ :=
        consume_cons (step_start ⟨hl.isLeaf.ne.1, hl.isLeaf.ne.2.1⟩ hl.operand)
      rw [run_append hw, run_literal]
    | chain hc =>
      have hw : consume (Node.expandText read) .initial w = some ⟨[], .chain node⟩ :=
        hc.consumed []
      rw [run_append hw, run_chain (hstop ⟨node, hc⟩)]
  rw [parseTokens, hrun]
  rfl

/-- Tokens have at most one tree. -/
theorem Expression.unique {node' : Node} (h : Expression (Leaf read) w node)
    (h' : Expression (Leaf read) w node') : node' = node := by
  have hends : ∀ tree, Expression (Leaf read) w tree → Ends (Leaf read) w [] tree := by
    intro tree ht
    exact ⟨ht, fun _ _ hn => by cases hn⟩
  -- both are what the machine finds
  have heq := (parseTokens_of_ends (hends _ h')).symm.trans (parseTokens_of_ends (hends _ h))
  injection heq with heq
  injection heq

/-! ## Soundness -/

/-- Expressions with a comma behind each, and their trees: the arguments of a call that is still
open. -/
inductive Items (leaf : Token → Node → Prop) : List Token → List Node → Prop where
  | none : Items leaf [] []
  | snoc {v w : List Token} {nodes : List Node} {node : Node} {comma : Token}
      (hi : Items leaf v nodes) (h : Expression leaf w node) (hcomma : comma.kind = .comma) :
      Items leaf (v ++ (w ++ [comma])) (nodes ++ [node])

/-- Arguments may follow arguments with a comma behind each. -/
theorem Items.arguments {leaf : Token → Node → Prop} {nodes nodes' : List Node}
    (h : Items leaf v nodes) (ha : Arguments leaf w nodes') :
    Arguments leaf (v ++ w) (nodes ++ nodes') := by
  induction h generalizing w nodes' with
  | none => exact ha
  | snoc hi h hcomma ih =>
    rw [List.append_assoc, List.append_assoc, List.append_assoc]
    exact ih (.more h hcomma ha)

/-- The tokens that opened some calls, innermost call first: for each of them its callee, the
opening parenthesis and the arguments so far. -/
inductive Pending (leaf : Token → Node → Prop) : List OpenCall → List Token → Prop where
  | none : Pending leaf [] []
  | call {calls : List OpenCall} {before w items : List Token} {callee : Node}
      {arguments : List Node} {opening : Token} (hp : Pending leaf calls before)
      (hc : Chain leaf w callee) (hopen : opening.kind = .leftParen)
      (hi : Items leaf items arguments) :
      Pending leaf (⟨callee, arguments⟩ :: calls) (before ++ (w ++ opening :: items))

/-- The tokens of the expression at hand. -/
inductive AtHand (leaf : Token → Node → Prop) : Focus → List Token → Prop where
  | start : AtHand leaf .start []
  | chain {w : List Token} {node : Node} (h : Chain leaf w node) : AtHand leaf (.chain node) w
  | field {w : List Token} {target : Node} {dot : Token} (h : Chain leaf w target)
      (hdot : dot.kind = .dot) : AtHand leaf (.field target) (w ++ [dot])
  | literal {token : Token} {node : Node} (h : leaf token node) :
      AtHand leaf (.literal node) [token]

/-- The invariant of the machine: the tokens read so far are those of the open calls and then those
of the expression at hand. -/
def Reading (leaf : Token → Node → Prop) (state : State) (past : List Token) : Prop :=
  ∃ before w, past = before ++ w ∧ Pending leaf state.calls before ∧ AtHand leaf state.focus w

variable {leaf : Token → Node → Prop} {past : List Token}

theorem Reading.initial : Reading leaf .initial [] := ⟨[], [], rfl, .none, .start⟩

/-- The tokens of a whole expression at hand are an expression. -/
theorem AtHand.expression {focus : Focus} (h : AtHand leaf focus w) (ht : tree? focus = some node) :
    Expression leaf w node := by
  cases h with
  | start => cases ht
  | field => cases ht
  | chain h =>
    rw [← Option.some.inj ht]
    exact .chain h
  | literal h =>
    rw [← Option.some.inj ht]
    exact .leaf h

/-- The closing parenthesis of a call completes a chain, whose arguments are those read before and
perhaps one more. -/
theorem Pending.close {call : OpenCall} {before : List Token} {nodes : List Node} {closing : Token}
    (hp : Pending leaf (call :: calls) before) (ha : Arguments leaf w nodes)
    (hclose : closing.kind = .rightParen) :
    Reading leaf ⟨calls, .chain (call.close nodes)⟩ (before ++ w ++ [closing]) := by
  cases hp with
  | @call _ outer v items callee arguments opening hp hc hopen hi =>
    refine ⟨outer, v ++ opening :: (items ++ w) ++ [closing], ?_, hp, ?_⟩
    · simp
    · exact .chain (.call hc hopen (hi.arguments ha) hclose)

/-- Behind a whole expression the machine goes on in the innermost call. -/
theorem Reading.afterExpression {focus : Focus} (h : Reading leaf ⟨calls, focus⟩ past)
    (ht : tree? focus = some node)
    (hs : Machine.afterExpression calls node token = .ok (.more next)) :
    Reading leaf next (past ++ [token]) := by
  obtain ⟨before, w, rfl, hp, hw⟩ := h
  have he : Expression leaf w node := hw.expression ht
  cases calls with
  | nil => cases hs
  | cons call calls =>
    simp only [Machine.afterExpression] at hs
    split at hs
    · next hclose =>
      cases hs
      exact hp.close (.last he) hclose
    · next hcomma =>
      cases hs
      -- the expression and its comma join the arguments of the innermost call
      cases hp with
      | @call _ outer v items callee arguments opening hp hc hopen hi =>
        refine ⟨outer ++ (v ++ opening :: (items ++ (w ++ [token]))), [], ?_, ?_, .start⟩
        · simp
        · exact .call hp hc hopen (hi.snoc he hcomma)
    · cases hs
    · cases hs

/-- A token that starts an expression is the expression at hand. -/
theorem Reading.operand (hp : Pending (Leaf read) calls past) (hk : token.kind ≠ .endOfInput)
    (hs : (Machine.operand (Node.expandText read) token).map
      (fun focus => Verdict.more { calls, focus }) = .ok (.more next)) :
    Reading (Leaf read) next (past ++ [token]) := by
  obtain ⟨focus, hf, hn⟩ := map_eq_ok_iff.1 hs
  injection hn with hn
  subst hn
  rcases leaf_or_name_of_operand hk hf with ⟨node, hl, rfl⟩ | ⟨hname, rfl⟩
  · exact ⟨past, [token], rfl, hp, .literal hl⟩
  · exact ⟨past, [token], rfl, hp, .chain (.name hname)⟩

/-- **The step preserves the invariant.** -/
theorem Reading.step (h : Reading (Leaf read) state past) (hk : token.kind ≠ .endOfInput)
    (hs : Machine.step (Node.expandText read) state token = .ok (.more next)) :
    Reading (Leaf read) next (past ++ [token]) := by
  obtain ⟨calls, focus⟩ := state
  cases focus with
  | start =>
    obtain ⟨before, w, rfl, hp, hw⟩ := h
    cases hw
    rw [List.append_nil]
    simp only [Machine.step] at hs
    split at hs
    · next call calls hclose =>
      cases hs
      simpa using hp.close .none hclose
    · cases hs
    · exact Reading.operand hp hk hs
  | chain node =>
    simp only [Machine.step] at hs
    split at hs
    · next hopen =>
      obtain ⟨before, w, rfl, hp, hw⟩ := h
      cases hw with
      | chain hc =>
        cases hs
        exact ⟨before ++ (w ++ [token]), [], by simp, .call hp hc hopen .none, .start⟩
    · next hdot =>
      obtain ⟨before, w, rfl, hp, hw⟩ := h
      cases hw with
      | chain hc =>
        cases hs
        exact ⟨before, w ++ [token], by simp, hp, .field hc hdot⟩
    · exact h.afterExpression rfl hs
  | field target =>
    -- the name of the field completes the access that the dot began
    simp only [Machine.step] at hs
    split at hs
    · next hfield =>
      obtain ⟨before, w, rfl, hp, hw⟩ := h
      cases hw with
      | @field v _ dot hc hdot =>
        cases hs
        exact ⟨before, v ++ [dot, token], by simp, hp, .chain (.access hc hdot hfield)⟩
    · cases hs
  | literal node => exact h.afterExpression rfl hs

/-- Without open calls, a whole expression at hand is all that the machine has read. -/
theorem Reading.expression {focus : Focus} (h : Reading leaf ⟨[], focus⟩ past)
    (ht : tree? focus = some node) : Expression leaf past node := by
  obtain ⟨before, w, rfl, hp, hw⟩ := h
  cases hp
  exact hw.expression ht

/-- The machine finds the whole expression at hand, when no call is open. -/
theorem eq_nil_of_afterExpression {tree : Node}
    (hs : Machine.afterExpression calls tree token = .ok (.found node)) :
    calls = [] ∧ tree = node := by
  cases calls with
  | nil =>
    cases hs
    exact ⟨rfl, rfl⟩
  | cons call calls =>
    simp only [Machine.afterExpression] at hs
    split at hs <;> cases hs

theorem more_ne_afterExpression {tree : Node} (hk : token.kind = .endOfInput) :
    Machine.afterExpression calls tree token ≠ .ok (.more next) := by
  intro hs
  cases calls with
  | nil => cases hs
  | cons call calls =>
    simp only [Machine.afterExpression, hk] at hs
    cases hs

/-- **What the machine finds is an expression,** which takes all that it can. -/
theorem Reading.found (h : Reading (Leaf read) state past)
    (hs : Machine.step (Node.expandText read) state token = .ok (.found node)) :
    Ends (Leaf read) past (token :: rest) node := by
  obtain ⟨calls, focus⟩ := state
  cases focus with
  | start =>
    simp only [Machine.step] at hs
    split at hs
    · cases hs
    · cases hs
    · obtain ⟨focus, -, hn⟩ := map_eq_ok_iff.1 hs
      cases hn
  | chain tree =>
    simp only [Machine.step] at hs
    split at hs
    · cases hs
    · cases hs
    · next hleft hdot =>
      obtain ⟨rfl, rfl⟩ := eq_nil_of_afterExpression hs
      refine ⟨h.expression rfl, fun _ next hn => ?_⟩
      rw [← Option.some.inj hn]
      exact ⟨hleft, hdot⟩
  | field target =>
    simp only [Machine.step] at hs
    split at hs <;> cases hs
  | literal tree =>
    obtain ⟨rfl, rfl⟩ := eq_nil_of_afterExpression hs
    refine ⟨h.expression rfl, ?_⟩
    -- a literal at hand is a leaf, and no leaf is the name that a chain starts with
    rintro ⟨chain, hc⟩
    obtain ⟨before, w, rfl, hp, hw⟩ := h
    cases hp
    cases hw with
    | literal hl =>
      obtain ⟨name, tail, heq, hname⟩ := hc.head
      rw [List.nil_append] at heq
      injection heq with heq _
      rw [heq] at hl
      exact absurd hname hl.isLeaf.ne.2.2

/-- The machine goes on behind the end of the input only if that is the first token. -/
theorem Reading.endOfInput (h : Reading leaf state past) (hk : token.kind = .endOfInput)
    (hs : Machine.step expand state token = .ok (.more next)) :
    past = [] ∧ next = ⟨[], .literal (Node.ofText token.lexeme)⟩ := by
  obtain ⟨calls, focus⟩ := state
  obtain ⟨before, w, rfl, hp, hw⟩ := h
  cases focus with
  | start =>
    simp only [Machine.step, hk] at hs
    cases hp with
    | call => cases hs
    | none =>
      cases hw
      simp only [Machine.operand, hk] at hs
      cases hs
      exact ⟨rfl, rfl⟩
  | chain tree =>
    simp only [Machine.step, hk] at hs
    exact absurd hs (more_ne_afterExpression hk)
  | field target =>
    simp only [Machine.step, hk] at hs
    cases hs
  | literal tree => exact absurd hs (more_ne_afterExpression hk)

/-- **Soundness.** A run over tokens whose only end of input is the last one finds either the empty
text, if there is nothing in front of it, or an expression, to which all that was read before
belongs. -/
theorem Reading.run {init : List Token} {eof : Token} (h : Reading (Leaf read) state past)
    (hinit : ∀ token ∈ init, token.kind ≠ .endOfInput) (heof : eof.kind = .endOfInput)
    (hr : Machine.run (Node.expandText read) state last (init ++ [eof]) = .ok node) :
    (past ++ init = [] ∧ node = Node.ofText eof.lexeme) ∨
      ∃ w rest, init ++ [eof] = w ++ rest ∧ Ends (Leaf read) (past ++ w) rest node := by
  induction init generalizing state past last with
  | nil =>
    rw [List.nil_append, Machine.run] at hr
    split at hr
    · next after hs =>
      obtain ⟨hp, hafter⟩ := h.endOfInput heof hs
      rw [hafter] at hr
      exact .inl ⟨by rw [hp]; rfl, (Except.ok.inj hr).symm⟩
    · next tree hs =>
      rw [← Except.ok.inj hr]
      refine .inr ⟨[], [eof], rfl, ?_⟩
      rw [List.append_nil]
      exact h.found hs
    · cases hr
  | cons token init ih =>
    rw [List.cons_append, Machine.run] at hr
    split at hr
    · next after hs =>
      have hafter := h.step (hinit token (List.mem_cons_self ..)) hs
      have hinit' : ∀ t ∈ init, t.kind ≠ .endOfInput :=
        fun t ht => hinit t (List.mem_cons_of_mem _ ht)
      rcases ih hafter hinit' hr with ⟨hnil, -⟩ | ⟨w, rest, heq, he⟩
      · simp at hnil
      · refine .inr ⟨token :: w, rest, ?_, ?_⟩
        · rw [List.cons_append, List.cons_append, heq]
        · rw [List.append_assoc] at he
          exact he
    · next tree hs =>
      rw [← Except.ok.inj hr]
      refine .inr ⟨[], token :: (init ++ [eof]), rfl, ?_⟩
      rw [List.append_nil]
      exact h.found hs
    · cases hr

end Splice.Grammar
