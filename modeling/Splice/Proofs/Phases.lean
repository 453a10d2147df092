import Splice.Proofs.Evaluation
import Splice.Proofs.Filling
import Splice.Proofs.Prefixes
import Splice.Proofs.Segmentation

/-!
# `Splice.Proofs.Phases` — reading comes before evaluating

A template is read as a whole before any of it is evaluated. Its spans are expressions, in whose
quoted texts there may be templates again. If one of all these spans is no expression, neither is
the text, and nothing is evaluated. Otherwise the tree of the text holds the trees of all of them;
and the tree of a template is evaluated piece by piece, from left to right, until a span halts.

## Contents
- `Joins`, `runFrom_template_eq_iff`: the evaluation of a template, piece by piece.
- `Node.StandsIn`, `Expression.exists_standsIn`: a tree stands in another one, as those of its
  leaves do in the tree of an expression.
- `Node.Reaches`, `Node.Asks`, `Node.MadeOf`: the quoted texts that the reading of an expression
  gets to, the expressions that it asks for, and those that a text is made of.
- `exists_template_of_reaches`, `Asks.exists_standsIn`, `MadeOf.exists_standsIn`: what is read has
  been read altogether.
- `ofTemplate_eq_error_iff`: the error of a template.
- `read_then_evaluate`: the two phases.
-/

namespace Splice

open Splice.Span (Segment segments)

variable {source outer text : List Char} {node part tree : Node} {token : Token}

/-! ## Templates are evaluated piece by piece -/

/-- The pieces of a template are joined from left to right: a literal as it stands, and what the
value of its own program displays for a span. The first program that halts ends this, and the pieces
behind it are not evaluated. -/
inductive Joins (host : Host) (scopes : Context) (depth : Nat) :
    List Segment → Journal → Except Halt String → Journal → Prop
  | none {journal : Journal} : Joins host scopes depth [] journal (.ok "") journal
  | literal {text : List Char} {pieces : List Segment} {journal after : Journal}
      {result : Except Halt String} (h : Joins host scopes depth pieces journal result after) :
      Joins host scopes depth (.literal text :: pieces) journal
        (result.map (String.ofList text ++ ·)) after
  | value {source : List Char} {program : Node} {v : Value} {pieces : List Segment}
      {journal between after : Journal} {result : Except Halt String}
      (hread : Node.ofChars source = .ok program)
      (hv : (eval host scopes depth program).runFrom journal = (.ok v, between))
      (h : Joins host scopes depth pieces between result after) :
      Joins host scopes depth (.span source :: pieces) journal (result.map (v.display ++ ·)) after
  | halt {source : List Char} {program : Node} {halt : Halt} {pieces : List Segment}
      {journal after : Journal} (hread : Node.ofChars source = .ok program)
      (hv : (eval host scopes depth program).runFrom journal = (.error halt, after)) :
      Joins host scopes depth (.span source :: pieces) journal (.error halt) after

variable {host : Host} {scopes : Context} {depth : Nat} {pieces : List Segment}
  {parts : List Node} {journal after after' : Journal} {result result' : Except Halt String}

/-- There is one way to join pieces. -/
theorem Joins.unique (h : Joins host scopes depth pieces journal result after)
    (h' : Joins host scopes depth pieces journal result' after') :
    result = result' ∧ after = after' := by
  induction h generalizing result' after' with
  | none =>
    cases h'
    exact ⟨rfl, rfl⟩
  | literal h ih =>
    cases h' with
    | literal h' =>
      obtain ⟨rfl, rfl⟩ := ih h'
      exact ⟨rfl, rfl⟩
  | value hread hv h ih =>
    cases h' with
    | value hread' hv' h' =>
      rw [hread] at hread'
      cases hread'
      rw [hv] at hv'
      cases hv'
      obtain ⟨rfl, rfl⟩ := ih h'
      exact ⟨rfl, rfl⟩
    | halt hread' hv' =>
      rw [hread] at hread'
      cases hread'
      rw [hv] at hv'
      cases hv'
  | halt hread hv =>
    cases h' with
    | value hread' hv' h' =>
      rw [hread] at hread'
      cases hread'
      rw [hv] at hv'
      cases hv'
    | halt hread' hv' =>
      rw [hread] at hread'
      cases hread'
      rw [hv] at hv'
      cases hv'
      exact ⟨rfl, rfl⟩

/-- What the parts of a template display, one behind the other. -/
def joined (values : List Value) : String := String.join (values.map Value.display)

theorem map_joined_cons (result : Except Halt (List Value)) (v : Value) :
    (result.map (v :: ·)).map joined = (result.map joined).map (v.display ++ ·) := by
  cases result with
  | error halt => rfl
  | ok values =>
    show Except.ok (joined (v :: values)) = Except.ok (v.display ++ joined values)
    rw [joined, joined, List.map_cons, String.join_cons]

/-- To evaluate the parts of a template is to join its pieces. -/
theorem joins_mapM (hparts : List.Forall₂ (Grammar.Part Node.ofChars) pieces parts)
    (journal : Journal) :
    let run := (parts.mapM (eval host scopes (depth + 1))).runFrom journal
    Joins host scopes (depth + 2) pieces journal (run.1.map joined) run.2 := by
  induction hparts generalizing journal with
  | nil => exact .none
  | @cons piece part pieces parts hpart _ ih =>
    intro run
    cases hpart with
    | literal text =>
      have hv : (eval host scopes (depth + 1) (Node.ofText (String.ofList text))).runFrom journal =
          (.ok (.text (String.ofList text)), journal) := rfl
      have hrun : run = _ := EvalM.runFrom_mapM_cons_of_ok hv
      rw [hrun, map_joined_cons]
      exact .literal (ih journal)
    | @span source program hread =>
      obtain ⟨body, rfl⟩ := Node.exists_body_of_ofChars hread
      -- the program is evaluated one level above its body
      cases hv : (eval host scopes (depth + 1) body).runFrom journal with
      | mk outcome between =>
        cases outcome with
        | ok v =>
          have hrun : run = _ := EvalM.runFrom_mapM_cons_of_ok hv
          rw [hrun, map_joined_cons]
          exact .value hread hv (ih between)
        | error halt =>
          have hrun : run = _ := EvalM.runFrom_mapM_cons_of_error hv
          rw [hrun]
          exact .halt hread hv

/-- **The tree of a template comes to its joined pieces, and to nothing else.** -/
theorem runFrom_template_eq_iff (h : Node.templateOf Node.ofChars text = .ok tree)
    {outcome : Except Halt Value × Journal} :
    (eval host scopes (depth + 2) tree).runFrom journal = outcome ↔
      ∃ result, Joins host scopes (depth + 2) (segments text) journal result outcome.2 ∧
        outcome.1 = result.map .text := by
  obtain ⟨parts, hparts, rfl⟩ := Grammar.templateOf_eq_ok_iff.1 h
  let run := (parts.mapM (eval host scopes (depth + 1))).runFrom journal
  have hjoins : Joins host scopes (depth + 2) (segments text) journal (run.1.map joined) run.2 :=
    joins_mapM hparts journal
  have hrun : (eval host scopes (depth + 2) (.template parts)).runFrom journal =
      ((run.1.map joined).map .text, run.2) := by
    rw [eval, EvalM.runFrom_bind]
    cases hparts : (parts.mapM (eval host scopes (depth + 1))).runFrom journal with
    | mk values after =>
      have hrun : run = (values, after) := hparts
      rw [hrun]
      cases values <;> rfl
  rw [hrun]
  constructor
  · rintro rfl
    exact ⟨run.1.map joined, hjoins, rfl⟩
  · rintro ⟨result, hresult, houtcome⟩
    obtain ⟨rfl, hafter⟩ := hresult.unique hjoins
    exact Prod.ext houtcome.symm hafter.symm

/-! ## Trees that stand in a tree -/

namespace Node

/-- The tree stands in the other one, or is it. -/
inductive StandsIn (part : Node) : Node → Prop
  | self : StandsIn part part
  | inside {node child : Node} (hchild : child ∈ node.parts) (h : StandsIn part child) :
      StandsIn part node

theorem StandsIn.trans {inner : Node} (hinner : inner.StandsIn part) (h : part.StandsIn node) :
    inner.StandsIn node := by
  induction h with
  | self => exact hinner
  | inside hchild _ ih => exact .inside hchild ih

end Node

/-! ## What has been read -/

namespace Grammar

variable {leaf : Token → Node → Prop}

mutual

/-- An expression holds the trees of its leaves. -/
theorem Expression.exists_standsIn {w : List Token} {node : Node} (hk : isLeaf token.kind)
    (ht : token ∈ w) : Expression leaf w node → ∃ part, leaf token part ∧ part.StandsIn node
  | .leaf h => by
    cases List.mem_singleton.1 ht
    exact ⟨node, h, .self⟩
  | .chain h => h.exists_standsIn hk ht

theorem Chain.exists_standsIn {w : List Token} {node : Node} (hk : isLeaf token.kind)
    (ht : token ∈ w) : Chain leaf w node → ∃ part, leaf token part ∧ part.StandsIn node
  | .name hname => by
    cases List.mem_singleton.1 ht
    exact absurd hname hk.ne.2.2
  | @Chain.access _ w target dot field h hdot hfield => by
    simp only [List.mem_append, List.mem_cons, List.not_mem_nil, or_false] at ht
    rcases ht with ht | rfl | rfl
    · obtain ⟨part, hpart, hstands⟩ := h.exists_standsIn hk ht
      exact ⟨part, hpart, .inside (List.mem_singleton_self _) hstands⟩
    · simp [hdot, isLeaf] at hk
    · exact absurd hfield hk.ne.2.2
  | @Chain.call _ w inner callee arguments opening closing h hopen ha hclose => by
    simp only [List.mem_append, List.mem_cons, List.not_mem_nil, or_false] at ht
    rcases ht with (ht | rfl | ht) | rfl
    · obtain ⟨part, hpart, hstands⟩ := h.exists_standsIn hk ht
      exact ⟨part, hpart, .inside (List.mem_cons_self ..) hstands⟩
    · simp [hopen, isLeaf] at hk
    · obtain ⟨part, argument, hpart, hmem, hstands⟩ := ha.exists_standsIn hk ht
      exact ⟨part, hpart, .inside (List.mem_cons_of_mem _ hmem) hstands⟩
    · exact absurd hclose hk.ne.1

theorem Arguments.exists_standsIn {w : List Token} {nodes : List Node} (hk : isLeaf token.kind)
    (ht : token ∈ w) : Arguments leaf w nodes →
      ∃ part node, leaf token part ∧ node ∈ nodes ∧ part.StandsIn node
  | .none => absurd ht List.not_mem_nil
  | @Arguments.last _ w node h => by
    obtain ⟨part, hpart, hstands⟩ := h.exists_standsIn hk ht
    exact ⟨part, node, hpart, List.mem_singleton_self node, hstands⟩
  | @Arguments.more _ w rest node nodes comma h hcomma hrest => by
    rcases List.mem_append.1 ht with ht | ht
    · obtain ⟨part, hpart, hstands⟩ := h.exists_standsIn hk ht
      exact ⟨part, node, hpart, List.mem_cons_self .., hstands⟩
    · rcases List.mem_cons.1 ht with rfl | ht
      · simp [hcomma, isLeaf] at hk
      · obtain ⟨part, other, hpart, hmem, hstands⟩ := hrest.exists_standsIn hk ht
        exact ⟨part, other, hpart, List.mem_cons_of_mem _ hmem, hstands⟩

end

/-- The tree of a quoted text with spans is that of a template. -/
theorem Leaf.templateOf_eq_ok {read : List Char → Except SourceError Node}
    (h : Leaf read token part) (hk : token.kind = .text)
    (hs : .span source ∈ segments token.lexeme.toList) :
    Node.templateOf read token.lexeme.toList = .ok part := by
  have hspans : Span.hasSpans token.lexeme.toList = true :=
    Span.hasSpans_iff_hasSpan.2 (Span.hasSpan_iff_mem_segments.2 ⟨source, hs⟩)
  have hexpand := (expandText_eq_ok_iff hk).2 h
  rw [Node.expandText, if_pos hspans] at hexpand
  exact hexpand

/-- What is on the left of related lists is related to something on the right. -/
theorem exists_mem_of_forall₂ {α β : Type} {R : α → β → Prop} {xs : List α} {ys : List β}
    (h : List.Forall₂ R xs ys) {x : α} (hx : x ∈ xs) : ∃ y ∈ ys, R x y := by
  induction h with
  | nil => cases hx
  | cons hhead _ ih =>
    rcases List.mem_cons.1 hx with rfl | hx
    · exact ⟨_, List.mem_cons_self .., hhead⟩
    · obtain ⟨y, hy, hxy⟩ := ih hx
      exact ⟨y, List.mem_cons_of_mem _ hy, hxy⟩

/-- The trees of its spans stand in the tree of a template. -/
theorem exists_span_of_templateOf (h : Node.templateOf Node.ofChars text = .ok node)
    (hs : .span source ∈ segments text) :
    ∃ program, Node.ofChars source = .ok program ∧ program.body.StandsIn node := by
  obtain ⟨parts, hparts, rfl⟩ := templateOf_eq_ok_iff.1 h
  obtain ⟨part, hmem, hpart⟩ := exists_mem_of_forall₂ hparts hs
  cases hpart with
  | span hread => exact ⟨_, hread, .inside hmem .self⟩

end Grammar

/-! ## The expressions that a text asks for -/

namespace Node

/-- The reading of the expression gets to the token, where an expression is due: the tokens in front
of it open calls, at any depth, and are the arguments of these calls so far. -/
def Reaches (source : List Char) (token : Token) : Prop :=
  ∃ past rest calls, scan source = .ok (past ++ token :: rest) ∧
    Grammar.Pending (Grammar.Leaf ofChars) calls past

/-- The reading of an expression asks for another one: itself, or one in a span of a quoted text
that the reading of such an expression gets to. -/
inductive Asks (source : List Char) : List Char → Prop
  | self : Asks source source
  | quoted {outer inner : List Char} {token : Token} (h : Asks source outer)
      (ht : Reaches outer token) (hk : token.kind = .text)
      (hs : .span inner ∈ segments token.lexeme.toList) : Asks source inner

/-- The expressions that a text is made of: the one in its only span, those in the spans of a
template, or the text itself. -/
inductive MadeOf (text : List Char) : List Char → Prop
  | single {source : List Char} (h : Span.singleSpan? (Text.trim text) = some source) :
      MadeOf text source
  | piece {source : List Char} (h : Span.singleSpan? (Text.trim text) = none)
      (hspans : Span.hasSpans (Text.trim text) = true)
      (hs : .span source ∈ segments (stripQuotes (Text.trim text))) : MadeOf text source
  | whole (h : Span.singleSpan? (Text.trim text) = none)
      (hspans : Span.hasSpans (Text.trim text) = false) : MadeOf text (Text.trim text)

/-- Behind any other token of an expression, the end of the input stands last. -/
theorem exists_between_of_scan {past rest : List Token}
    (hscan : scan outer = .ok (past ++ token :: rest)) (hk : token.kind ≠ .endOfInput) :
    ∃ between line, rest = between ++ [Grammar.inputEnd line] ∧
      ∀ t ∈ between, t.kind ≠ .endOfInput := by
  obtain ⟨init, line, htokens, hinit⟩ := Scan.scan_eq_ok hscan
  rcases List.eq_nil_or_concat rest with rfl | ⟨between, last, rfl⟩
  · obtain ⟨-, heq⟩ := List.append_inj' htokens rfl
    injection heq with heq _
    rw [heq] at hk
    exact absurd rfl hk
  · rw [List.concat_eq_append, ← List.cons_append, ← List.append_assoc] at htokens
    obtain ⟨rfl, heq⟩ := List.append_inj' htokens rfl
    injection heq with heq _
    refine ⟨between, line, ?_, ?_⟩
    · rw [List.concat_eq_append, heq]
      rfl
    · intro t ht
      exact (hinit t (List.mem_append_right _ (List.mem_cons_of_mem _ ht))).ne_endOfInput

/-- The machine goes on behind the tokens that it reads in front of a quoted text, and what it finds
in the end begins with all of them. -/
theorem exists_expression_of_reaches {past rest : List Token} {calls : List Machine.OpenCall}
    (hscan : scan outer = .ok (past ++ token :: rest))
    (hp : Grammar.Pending (Grammar.Leaf ofChars) calls past) (hk : token.kind = .text)
    (hread : ofChars outer = .ok tree) :
    ∃ w, Grammar.Expression (Grammar.Leaf ofChars) (past ++ [token] ++ w) tree.body := by
  have hstart : token.kind ≠ .rightParen ∧ token.kind ≠ .endOfInput := by
    rw [hk]
    decide
  obtain ⟨between, line, rfl, hbetween⟩ := exists_between_of_scan hscan hstart.2
  rw [Grammar.ofChars_eq, hscan] at hread
  obtain ⟨body, hrun, rfl⟩ := Grammar.map_eq_ok_iff.1 hread
  rw [Grammar.run_append hp.consumed, Machine.run] at hrun
  cases hop : Machine.operand (expandText ofChars) token with
  | error e =>
    rw [Grammar.step_operand hstart, hop] at hrun
    cases hrun
  | ok focus =>
    have hstep : Machine.step (expandText ofChars) ⟨calls, .start⟩ token =
        .ok (.more ⟨calls, focus⟩) := Grammar.step_start hstart hop
    rw [hstep] at hrun
    have hreading : Grammar.Reading (Grammar.Leaf ofChars) ⟨calls, .start⟩ past :=
      ⟨past, [], (List.append_nil past).symm, hp, .start⟩
    -- the invariant holds behind the quoted text, and so the run goes on to a whole expression
    have hafter := hreading.step hstart.2 hstep
    rcases hafter.run hbetween rfl hrun with ⟨hnil, -⟩ | ⟨w, rest, -, hends⟩
    · simp at hnil
    · exact ⟨w, hends.1⟩

/-- **An expression that has been read holds the templates that its reading got to.** -/
theorem exists_template_of_reaches (hread : ofChars outer = .ok tree) (ht : Reaches outer token)
    (hk : token.kind = .text) (hs : .span source ∈ segments token.lexeme.toList) :
    ∃ part, templateOf ofChars token.lexeme.toList = .ok part ∧ part.StandsIn tree.body := by
  obtain ⟨past, rest, calls, hscan, hp⟩ := ht
  obtain ⟨w, hexpression⟩ := exists_expression_of_reaches hscan hp hk hread
  have hleaf : Grammar.isLeaf token.kind := by
    simp [Grammar.isLeaf, hk]
  have hmem : token ∈ past ++ [token] ++ w := by simp
  obtain ⟨part, hpart, hstands⟩ := hexpression.exists_standsIn hleaf hmem
  exact ⟨part, hpart.templateOf_eq_ok hk hs, hstands⟩

theorem body_standsIn_of_ofChars (h : ofChars source = .ok tree) : tree.body.StandsIn tree := by
  obtain ⟨body, rfl⟩ := exists_body_of_ofChars h
  exact .inside (List.mem_singleton_self body) .self

/-- If an expression has been read, so have all those that its reading asks for. -/
theorem Asks.exists_standsIn (h : Asks outer source) (hread : ofChars outer = .ok tree) :
    ∃ program, ofChars source = .ok program ∧ program.body.StandsIn tree.body := by
  induction h with
  | self => exact ⟨tree, hread, .self⟩
  | quoted h ht hk hs ih =>
    obtain ⟨program, hprogram, hstands⟩ := ih
    obtain ⟨part, hpart, hinside⟩ := exists_template_of_reaches hprogram ht hk hs
    obtain ⟨inner, hinner, hbody⟩ := Grammar.exists_span_of_templateOf hpart hs
    exact ⟨inner, hinner, hbody.trans (hinside.trans hstands)⟩

/-- An expression that has been read holds all templates that its reading asks for. -/
theorem Asks.exists_template {inner : List Char} (h : Asks outer source)
    (hread : ofChars outer = .ok tree) (ht : Reaches source token) (hk : token.kind = .text)
    (hs : .span inner ∈ segments token.lexeme.toList) :
    ∃ part, ofTemplate token.lexeme = .ok part ∧ part.StandsIn tree.body := by
  obtain ⟨program, hprogram, hstands⟩ := h.exists_standsIn hread
  obtain ⟨part, hpart, hinside⟩ := exists_template_of_reaches hprogram ht hk hs
  exact ⟨part, hpart, hinside.trans hstands⟩

/-- If a text has been read, so have the expressions that it is made of. -/
theorem MadeOf.exists_standsIn (h : MadeOf text source) (hread : readChars text = .ok tree) :
    ∃ program, ofChars source = .ok program ∧ program.body.StandsIn tree := by
  rw [readChars] at hread
  cases h with
  | single h =>
    rw [h] at hread
    exact ⟨tree, hread, body_standsIn_of_ofChars hread⟩
  | piece h hspans hs =>
    rw [h] at hread
    dsimp only at hread
    rw [if_pos hspans] at hread
    exact Grammar.exists_span_of_templateOf hread hs
  | whole h hspans =>
    rw [h] at hread
    dsimp only at hread
    rw [if_neg (Bool.eq_false_iff.1 hspans)] at hread
    exact ⟨tree, hread, body_standsIn_of_ofChars hread⟩

end Node

/-! ## The two phases -/

/-- **A template is cut into spans that are read one after the other.** It fails exactly if one of
them does, with the error of the leftmost such span. -/
theorem ofTemplate_eq_error_iff (text : String) :
    (∀ e, Node.ofTemplate text = .error e ↔ ∃ before source after,
      segments text.toList = before ++ .span source :: after ∧
      (∀ earlier, .span earlier ∈ before → ∃ node, Node.ofChars earlier = .ok node) ∧
      Node.ofChars source = .error e) ∧
    ((∃ e, Node.ofTemplate text = .error e) ↔
      ∃ source e, .span source ∈ segments text.toList ∧ Node.ofChars source = .error e) := by
  have hleftmost : ∀ e, Node.ofTemplate text = .error e ↔ _ :=
    fun e => Grammar.templateOf_eq_error_iff
  refine ⟨hleftmost, ?_, ?_⟩
  · rintro ⟨e, he⟩
    obtain ⟨before, source, after, hsegments, -, hsource⟩ := (hleftmost e).1 he
    refine ⟨source, e, ?_, hsource⟩
    rw [hsegments]
    exact List.mem_append_right before (List.mem_cons_self ..)
  · rintro ⟨source, e, hs, hsource⟩
    cases htemplate : Node.ofTemplate text with
    | error e' => exact ⟨e', rfl⟩
    | ok tree =>
      obtain ⟨program, hprogram, -⟩ := Grammar.exists_span_of_templateOf htemplate hs
      rw [hprogram] at hsource
      cases hsource

/-- A text that asks for something that is no expression is not evaluated, not even in part. -/
theorem exists_evaluate_eq_source_error {text : String} {first : List Char} {e : SourceError}
    (hfirst : Node.MadeOf text.toList first) (h : Node.Asks first source)
    (he : Node.ofChars source = .error e) :
    ∃ e', ∀ host context journal,
      evaluate host context text journal = (.error (.source e'), journal) := by
  cases hread : Node.read text with
  | error e' =>
    refine ⟨e', ?_⟩
    intro host context journal
    rw [evaluate, hread]
  | ok tree =>
    obtain ⟨program, hprogram, -⟩ := hfirst.exists_standsIn hread
    obtain ⟨inner, hinner, -⟩ := h.exists_standsIn hprogram
    rw [hinner] at he
    cases he

/-- **First all is read, and then it is evaluated.** A template fails exactly if one of its spans is
no expression, with the error of the leftmost one. Otherwise its tree comes to its pieces, joined
from left to right up to the first span that halts. It is the same with the templates that stand in
the quoted texts of an expression, however deep in calls and in other templates: if one of their
spans is no expression, the expression is none, and a text made of it is not evaluated in part;
otherwise the trees of all these templates stand in the tree. -/
theorem read_then_evaluate (text : String) :
    ((∀ e, Node.ofTemplate text = .error e ↔ ∃ before source after,
        segments text.toList = before ++ .span source :: after ∧
        (∀ earlier, .span earlier ∈ before → ∃ node, Node.ofChars earlier = .ok node) ∧
        Node.ofChars source = .error e) ∧
      ((∃ e, Node.ofTemplate text = .error e) ↔
        ∃ source e, .span source ∈ segments text.toList ∧ Node.ofChars source = .error e)) ∧
    (∀ tree, Node.ofTemplate text = .ok tree → ∀ host scopes depth journal outcome,
      (eval host scopes (depth + 2) tree).runFrom journal = outcome ↔
        ∃ result, Joins host scopes (depth + 2) (segments text.toList) journal result outcome.2 ∧
          outcome.1 = result.map .text) ∧
    (∀ source, Node.Asks text.toList source →
      (∀ e, Node.ofChars source = .error e → ∃ e', Node.ofExpression text = .error e') ∧
      ∀ tree, Node.ofExpression text = .ok tree → ∀ token inner, Node.Reaches source token →
        token.kind = .text → .span inner ∈ segments token.lexeme.toList →
        ∃ part, Node.ofTemplate token.lexeme = .ok part ∧ part.StandsIn tree) ∧
    ∀ first source, Node.MadeOf text.toList first → Node.Asks first source →
      (∀ e, Node.ofChars source = .error e → ∃ e', ∀ host context journal,
        evaluate host context text journal = (.error (.source e'), journal)) ∧
      ∀ tree, Node.read text = .ok tree → ∀ token inner, Node.Reaches source token →
        token.kind = .text → .span inner ∈ segments token.lexeme.toList →
        ∃ part, Node.ofTemplate token.lexeme = .ok part ∧ part.StandsIn tree := by
  refine ⟨ofTemplate_eq_error_iff text, ?_, ?_, ?_⟩
  · intro tree htree host scopes depth journal outcome
    exact runFrom_template_eq_iff htree
  · intro source hasks
    refine ⟨?_, ?_⟩
    · intro e he
      cases hread : Node.ofExpression text with
      | error e' => exact ⟨e', rfl⟩
      | ok tree =>
        obtain ⟨program, hprogram, -⟩ := hasks.exists_standsIn hread
        rw [hprogram] at he
        cases he
    · intro tree hread token inner ht hk hs
      obtain ⟨part, hpart, hstands⟩ := hasks.exists_template hread ht hk hs
      exact ⟨part, hpart, hstands.trans (Node.body_standsIn_of_ofChars hread)⟩
  · intro first source hfirst hasks
    refine ⟨?_, ?_⟩
    · intro e he
      exact exists_evaluate_eq_source_error hfirst hasks he
    · intro tree hread token inner ht hk hs
      obtain ⟨program, hprogram, hbody⟩ := hfirst.exists_standsIn hread
      obtain ⟨part, hpart, hstands⟩ := hasks.exists_template hprogram ht hk hs
      exact ⟨part, hpart, hstands.trans hbody⟩

/-- A text that is one span, with a call whose first argument leaves a trace and whose second one is
a template. In the span of the template there is no expression. -/
def loud : String := "$\x7bconcat(say(),'$\x7b)\x7d')\x7d"

/-- The call without the marks of its span. -/
def loudCall : String := "concat(say(),'$\x7b)\x7d')"

theorem read_then_evaluate_loud :
    Node.MadeOf loud.toList loudCall.toList ∧ Node.Asks loudCall.toList [')'] ∧
    Node.ofChars [')'] = .error (.parse (.unexpectedToken .rightParen ")" 1)) ∧
    ∃ e, ∀ host context journal,
      evaluate host context loud journal = (.error (.source e), journal) := by
  have hfirst : Node.MadeOf loud.toList loudCall.toList := .single (by decide +kernel)
  have hscan : scan loudCall.toList = .ok
      ([⟨.identifier, "concat", 1⟩, ⟨.leftParen, "(", 1⟩, ⟨.identifier, "say", 1⟩,
        ⟨.leftParen, "(", 1⟩, ⟨.rightParen, ")", 1⟩, ⟨.comma, ",", 1⟩] ++
        ⟨.text, "$\x7b)\x7d", 1⟩ :: [⟨.rightParen, ")", 1⟩, ⟨.endOfInput, "", 1⟩]) := by
    decide +kernel
  have hsay : Grammar.Expression (Grammar.Leaf Node.ofChars)
      ([⟨.identifier, "say", 1⟩] ++ ⟨.leftParen, "(", 1⟩ :: [] ++ [⟨.rightParen, ")", 1⟩])
      (.call (.reference ⟨.identifier, "say", 1⟩) []) :=
    .chain (.call (.name rfl) rfl .none rfl)
  have hpending : Grammar.Pending (Grammar.Leaf Node.ofChars)
      [⟨.reference ⟨.identifier, "concat", 1⟩, [.call (.reference ⟨.identifier, "say", 1⟩) []]⟩]
      ([⟨.identifier, "concat", 1⟩, ⟨.leftParen, "(", 1⟩, ⟨.identifier, "say", 1⟩,
        ⟨.leftParen, "(", 1⟩, ⟨.rightParen, ")", 1⟩, ⟨.comma, ",", 1⟩]) :=
    .call .none (.name rfl) rfl (.snoc .none hsay rfl)
  have hasks : Node.Asks loudCall.toList [')'] :=
    .quoted .self ⟨_, _, _, hscan, hpending⟩ rfl (by decide +kernel)
  have hspan : Node.ofChars [')'] = .error (.parse (.unexpectedToken .rightParen ")" 1)) := by
    have hparen : scan [')'] = .ok [⟨.rightParen, ")", 1⟩, ⟨.endOfInput, "", 1⟩] := by
      decide +kernel
    rw [Grammar.ofChars_eq, hparen]
    rfl
  refine ⟨hfirst, hasks, hspan, ?_⟩
  exact ((read_then_evaluate loud).2.2.2 loudCall.toList [')'] hfirst hasks).1 _ hspan

end Splice
