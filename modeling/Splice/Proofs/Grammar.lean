import Mathlib.Data.List.Forall2
import Splice.Node.Source

/-!
# `Splice.Proofs.Grammar` — the grammar of expressions

Which lists of tokens are expressions, and what tree each of them has, said without the machine that
reads them:

    E → Integer | Float | True | False | String | Semicolon | C
    C → Variable ( '(' A ')' | '.' Variable )*
    A → ε | E ( ',' E )* [ ',' ]

## Contents
- `Part`, `Leaf`: the trees of the pieces of a template and of the tokens that are expressions by
  themselves; `Leaf.operand` and `leaf_or_name_of_operand` say that the machine agrees.
- `templateOf_eq_ok_iff`, `templateOf_eq_error_iff`: templates are read piece by piece.
- `Expression`, `Chain`, `Arguments`: the grammar, one relation for each of its three symbols.
- `Expression.mono`: which tokens are expressions does not depend on the trees of the leaves.
- `Stops`, `Ends`, `Accepted`: where an expression ends that stands in front of other tokens.
-/

namespace Splice.Grammar

open Machine (operand)

variable {read : List Char → Except SourceError Node}

/-! ## Leaves -/

/-- The tree of a piece of a template, in which `read` gives the trees of the spans. -/
inductive Part (read : List Char → Except SourceError Node) : Span.Segment → Node → Prop where
  | literal (text : List Char) : Part read (.literal text) (Node.ofText (String.ofList text))
  | span {source : List Char} {node : Node} (h : read source = .ok node) :
      Part read (.span source) node.body

/-- The tree of a token that is an expression by itself. A text with spans has the trees of its
pieces. -/
inductive Leaf (read : List Char → Except SourceError Node) : Token → Node → Prop where
  | integer {token : Token} {i : Int64} (hk : token.kind = .integer)
      (h : Decimal.readInt64? 10 token.lexeme.toList = some i) :
      Leaf read token (.number (.known (.integer i)))
  | float {token : Token} {x : Float} (hk : token.kind = .float)
      (h : Decimal.readFloat? token.lexeme.toList = some x) :
      Leaf read token (.number (.known (.float x)))
  | truth {token : Token} (hk : token.kind = .trueWord ∨ token.kind = .falseWord) :
      Leaf read token (.boolean token)
  | text {token : Token} (hk : token.kind = .text)
      (h : Span.hasSpans token.lexeme.toList = false) : Leaf read token (Node.ofText token.lexeme)
  | template {token : Token} {parts : List Node} (hk : token.kind = .text)
      (h : Span.hasSpans token.lexeme.toList = true)
      (hp : List.Forall₂ (Part read) (Span.segments token.lexeme.toList) parts) :
      Leaf read token (.template parts)
  | semicolon {token : Token} (hk : token.kind = .semicolon) :
      Leaf read token (Node.ofText token.lexeme)

/-- The kinds of the tokens that are expressions by themselves. -/
def isLeaf (kind : Token.Kind) : Prop :=
  kind ∈ [.integer, .float, .trueWord, .falseWord, .text, .semicolon]

theorem Leaf.isLeaf {token : Token} {node : Node} (h : Leaf read token node) :
    isLeaf token.kind := by
  cases h with
  | truth hk => rcases hk with hk | hk <;> simp [Grammar.isLeaf, hk]
  | _ => simp [Grammar.isLeaf, *]

theorem isLeaf.ne {kind : Token.Kind} (h : isLeaf kind) :
    kind ≠ .rightParen ∧ kind ≠ .endOfInput ∧ kind ≠ .identifier := by
  refine ⟨?_, ?_, ?_⟩ <;> rintro rfl <;> simp [isLeaf] at h

theorem map_eq_ok_iff {ε α β : Type} {f : α → β} {x : Except ε α} {y : β} :
    x.map f = .ok y ↔ ∃ a, x = .ok a ∧ y = f a := by
  cases x with
  | error e =>
    constructor
    · intro h
      cases h
    · rintro ⟨a, ha, -⟩
      cases ha
  | ok a =>
    constructor
    · intro h
      exact ⟨a, rfl, (Except.ok.inj h).symm⟩
    · rintro ⟨b, hb, rfl⟩
      rw [Except.ok.inj hb]
      rfl

theorem map_eq_error_iff {ε α β : Type} {f : α → β} {x : Except ε α} {e : ε} :
    x.map f = .error e ↔ x = .error e := by
  cases x with
  | error e' =>
    constructor
    · intro h
      cases h
      rfl
    · intro h
      cases h
      rfl
  | ok a => exact ⟨nofun, nofun⟩

/-- Reading all elements of a list succeeds with the list of what each of them reads as. -/
theorem mapM_eq_ok_iff {ε α β : Type} {f : α → Except ε β} {xs : List α} {ys : List β} :
    xs.mapM f = .ok ys ↔ List.Forall₂ (fun x y => f x = .ok y) xs ys := by
  induction xs generalizing ys with
  | nil =>
    rw [List.mapM_nil, List.forall₂_nil_left_iff]
    exact ⟨fun h => (Except.ok.inj h).symm, fun h => congrArg Except.ok h.symm⟩
  | cons x xs ih =>
    rw [List.mapM_cons, List.forall₂_cons_left_iff]
    cases hx : f x with
    | error e =>
      constructor
      · intro h
        cases h
      · rintro ⟨y, ys', hy, -⟩
        cases hy
    | ok y =>
      cases hxs : xs.mapM f with
      | error e =>
        constructor
        · intro h
          cases h
        · rintro ⟨y', ys', -, hys, -⟩
          rw [ih.2 hys] at hxs
          cases hxs
      | ok zs =>
        constructor
        · intro h
          exact ⟨y, zs, rfl, ih.1 hxs, (Except.ok.inj h).symm⟩
        · rintro ⟨y', ys', hy, hys, rfl⟩
          have hzs : zs = ys' := Except.ok.inj (hxs.symm.trans (ih.2 hys))
          rw [← Except.ok.inj hy, ← hzs]
          rfl

/-- Reading all elements of a list fails with the error of the first one that cannot be read. -/
theorem mapM_eq_error_iff {ε α β : Type} {f : α → Except ε β} {xs : List α} {e : ε} :
    xs.mapM f = .error e ↔ ∃ before x after, xs = before ++ x :: after ∧
      (∀ y ∈ before, ∃ b, f y = .ok b) ∧ f x = .error e := by
  induction xs with
  | nil =>
    constructor
    · intro h
      cases h
    · rintro ⟨before, x, after, heq, -⟩
      exact absurd heq.symm (List.append_ne_nil_of_right_ne_nil _ (List.cons_ne_nil _ _))
  | cons x xs ih =>
    rw [List.mapM_cons]
    cases hx : f x with
    | error e' =>
      constructor
      · intro h
        cases h
        exact ⟨[], x, xs, rfl, fun y hy => absurd hy List.not_mem_nil, hx⟩
      · rintro ⟨before, y, after, heq, hbefore, hy⟩
        cases before with
        | nil =>
          injection heq with heq _
          rw [← heq, hx] at hy
          cases hy
          rfl
        | cons first before =>
          injection heq with heq _
          obtain ⟨b, hb⟩ := hbefore first (List.mem_cons_self ..)
          rw [← heq, hx] at hb
          cases hb
    | ok b =>
      have htail : (do let ys ← xs.mapM f; pure (b :: ys)) = Except.error e ↔
          xs.mapM f = .error e := map_eq_error_iff
      refine htail.trans (ih.trans ?_)
      constructor
      · rintro ⟨before, y, after, rfl, hbefore, hy⟩
        refine ⟨x :: before, y, after, rfl, ?_, hy⟩
        intro z hz
        rcases List.mem_cons.1 hz with rfl | hz
        · exact ⟨b, hx⟩
        · exact hbefore z hz
      · rintro ⟨before, y, after, heq, hbefore, hy⟩
        cases before with
        | nil =>
          injection heq with heq _
          rw [← heq, hx] at hy
          cases hy
        | cons first before =>
          injection heq with _ heq
          exact ⟨before, y, after, heq, fun z hz => hbefore z (List.mem_cons_of_mem _ hz), hy⟩

/-- The tree of one piece of a template. -/
def readPart (read : List Char → Except SourceError Node) :
    Span.Segment → Except SourceError Node
  | .literal text => .ok (Node.ofText (String.ofList text))
  | .span source => (read source).map Node.body

theorem templateOf_eq (text : List Char) :
    Node.templateOf read text = ((Span.segments text).mapM (readPart read)).map .template := rfl

theorem readPart_eq_ok_iff {segment : Span.Segment} {node : Node} :
    readPart read segment = .ok node ↔ Part read segment node := by
  cases segment with
  | literal text =>
    constructor
    · intro h
      rw [← Except.ok.inj h]
      exact .literal text
    · rintro ⟨⟩
      rfl
  | span source =>
    constructor
    · intro h
      obtain ⟨tree, hr, rfl⟩ := map_eq_ok_iff.1 h
      exact .span hr
    · rintro (_ | hr)
      exact map_eq_ok_iff.2 ⟨_, hr, rfl⟩

/-- A template is read piece by piece. -/
theorem templateOf_eq_ok_iff {text : List Char} {node : Node} :
    Node.templateOf read text = .ok node ↔
      ∃ parts, List.Forall₂ (Part read) (Span.segments text) parts ∧ node = .template parts := by
  have hparts : ∀ parts, (Span.segments text).mapM (readPart read) = .ok parts ↔
      List.Forall₂ (Part read) (Span.segments text) parts := by
    intro parts
    rw [mapM_eq_ok_iff]
    exact ⟨List.Forall₂.imp fun _ _ => readPart_eq_ok_iff.1,
      List.Forall₂.imp fun _ _ => readPart_eq_ok_iff.2⟩
  rw [templateOf_eq, map_eq_ok_iff]
  constructor
  · rintro ⟨parts, hp, rfl⟩
    exact ⟨parts, (hparts parts).1 hp, rfl⟩
  · rintro ⟨parts, hp, rfl⟩
    exact ⟨parts, (hparts parts).2 hp, rfl⟩

/-- A template fails with the error of its leftmost span that cannot be read. -/
theorem templateOf_eq_error_iff {text : List Char} {e : SourceError} :
    Node.templateOf read text = .error e ↔ ∃ before source after,
      Span.segments text = before ++ .span source :: after ∧
      (∀ earlier, .span earlier ∈ before → ∃ node, read earlier = .ok node) ∧
      read source = .error e := by
  rw [templateOf_eq, map_eq_error_iff, mapM_eq_error_iff]
  constructor
  · rintro ⟨before, piece, after, heq, hbefore, hpiece⟩
    cases piece with
    | literal text => cases hpiece
    | span source =>
      refine ⟨before, source, after, heq, ?_, map_eq_error_iff.1 hpiece⟩
      intro earlier hearlier
      obtain ⟨node, hnode⟩ := hbefore _ hearlier
      obtain ⟨tree, htree, -⟩ := map_eq_ok_iff.1 hnode
      exact ⟨tree, htree⟩
  · rintro ⟨before, source, after, heq, hbefore, hsource⟩
    refine ⟨before, .span source, after, heq, ?_, map_eq_error_iff.2 hsource⟩
    intro piece hpiece
    cases piece with
    | literal text => exact ⟨_, rfl⟩
    | span earlier =>
      obtain ⟨tree, htree⟩ := hbefore earlier hpiece
      exact ⟨tree.body, map_eq_ok_iff.2 ⟨tree, htree, rfl⟩⟩

theorem expandText_eq_ok_iff {token : Token} {node : Node} (hk : token.kind = .text) :
    Node.expandText read token = .ok node ↔ Leaf read token node := by
  unfold Node.expandText
  constructor
  · intro h
    split at h
    · next hs =>
      obtain ⟨parts, hp, rfl⟩ := templateOf_eq_ok_iff.1 h
      exact .template hk hs hp
    · next hs =>
      rw [← Except.ok.inj h]
      exact .text hk (Bool.eq_false_iff.2 hs)
  · intro h
    cases h with
    | text _ hs => rw [if_neg (Bool.eq_false_iff.1 hs)]
    | template _ hs hp => rw [if_pos hs, templateOf_eq_ok_iff.2 ⟨_, hp, rfl⟩]
    | truth hk' => rcases hk' with hk' | hk' <;> rw [hk] at hk' <;> cases hk'
    | integer hk' _ | float hk' _ | semicolon hk' =>
      rw [hk] at hk'
      cases hk'

/-- The machine gives a leaf its tree. -/
theorem Leaf.operand {token : Token} {node : Node} (h : Leaf read token node) :
    operand (Node.expandText read) token = .ok (.literal node) := by
  unfold Machine.operand
  cases h with
  | integer hk h => rw [hk, h]
  | float hk h => rw [hk, h]
  | truth hk => rcases hk with hk | hk <;> rw [hk]
  | text hk h => rw [hk, (expandText_eq_ok_iff hk).2 (.text hk h)]; rfl
  | template hk h hp => rw [hk, (expandText_eq_ok_iff hk).2 (.template hk h hp)]; rfl
  | semicolon hk => rw [hk]

/-- What the machine starts an expression with, other than the end of the input, is a leaf with its
tree or a name. -/
theorem leaf_or_name_of_operand {token : Token} {focus : Machine.Focus}
    (hk : token.kind ≠ .endOfInput) (h : operand (Node.expandText read) token = .ok focus) :
    (∃ node, Leaf read token node ∧ focus = .literal node) ∨
      (token.kind = .identifier ∧ focus = .chain (.reference token)) := by
  unfold operand at h
  split at h
  case h_1 hkind =>
    split at h
    · next i hi =>
      exact .inl ⟨_, .integer hkind hi, (Except.ok.inj h).symm⟩
    · cases h
  case h_2 hkind =>
    split at h
    · next x hx => exact .inl ⟨_, .float hkind hx, (Except.ok.inj h).symm⟩
    · cases h
  case h_3 hkind => exact .inl ⟨_, .truth (.inl hkind), (Except.ok.inj h).symm⟩
  case h_4 hkind => exact .inl ⟨_, .truth (.inr hkind), (Except.ok.inj h).symm⟩
  case h_5 hkind =>
    obtain ⟨node, hn, rfl⟩ := map_eq_ok_iff.1 h
    exact .inl ⟨node, (expandText_eq_ok_iff hkind).1 hn, rfl⟩
  case h_6 hkind => exact .inl ⟨_, .semicolon hkind, (Except.ok.inj h).symm⟩
  case h_7 hkind => exact absurd hkind hk
  case h_8 hkind => exact .inr ⟨hkind, (Except.ok.inj h).symm⟩
  all_goals cases h

/-! ## The grammar -/

variable {leaf : Token → Node → Prop}

mutual

/-- `E`: the tokens of an expression and its tree, `leaf` giving the trees of single tokens. -/
inductive Expression (leaf : Token → Node → Prop) : List Token → Node → Prop where
  | leaf {token : Token} {node : Node} (h : leaf token node) : Expression leaf [token] node
  | chain {w : List Token} {node : Node} (h : Chain leaf w node) : Expression leaf w node

/-- `C`: a name and the calls and accesses that follow it, which apply to all that stands before
them. -/
inductive Chain (leaf : Token → Node → Prop) : List Token → Node → Prop where
  | name {token : Token} (hk : token.kind = .identifier) : Chain leaf [token] (.reference token)
  | access {w : List Token} {target : Node} {dot field : Token} (h : Chain leaf w target)
      (hdot : dot.kind = .dot) (hfield : field.kind = .identifier) :
      Chain leaf (w ++ [dot, field]) (.access target field)
  | call {w inner : List Token} {callee : Node} {arguments : List Node} {opening closing : Token}
      (h : Chain leaf w callee) (hopen : opening.kind = .leftParen)
      (ha : Arguments leaf inner arguments) (hclose : closing.kind = .rightParen) :
      Chain leaf (w ++ opening :: inner ++ [closing]) (.call callee arguments)

/-- `A`: nothing, one expression, or an expression, a comma and `A` again, which is to say that a
comma may follow the last expression. -/
inductive Arguments (leaf : Token → Node → Prop) : List Token → List Node → Prop where
  | none : Arguments leaf [] []
  | last {w : List Token} {node : Node} (h : Expression leaf w node) : Arguments leaf w [node]
  | more {w rest : List Token} {node : Node} {nodes : List Node} {comma : Token}
      (h : Expression leaf w node) (hcomma : comma.kind = .comma)
      (hrest : Arguments leaf rest nodes) : Arguments leaf (w ++ comma :: rest) (node :: nodes)

end

mutual

/-- What is an expression over some leaves is one over others, if its own tokens stay leaves. -/
theorem Expression.mono {leaf' : Token → Node → Prop} {w : List Token} {node : Node}
    (hl : ∀ token ∈ w, ∀ node, leaf token node → ∃ node', leaf' token node') :
    Expression leaf w node → ∃ node', Expression leaf' w node'
  | .leaf h => by
    obtain ⟨node', h'⟩ := hl _ (List.mem_singleton.2 rfl) _ h
    exact ⟨node', .leaf h'⟩
  | .chain h => by
    obtain ⟨node', h'⟩ := h.mono hl
    exact ⟨node', .chain h'⟩

theorem Chain.mono {leaf' : Token → Node → Prop} {w : List Token} {node : Node}
    (hl : ∀ token ∈ w, ∀ node, leaf token node → ∃ node', leaf' token node') :
    Chain leaf w node → ∃ node', Chain leaf' w node'
  | .name hk => ⟨_, .name hk⟩
  | .access h hdot hfield => by
    obtain ⟨target, h'⟩ := h.mono fun t ht => hl t (List.mem_append_left _ ht)
    exact ⟨_, .access h' hdot hfield⟩
  | .call h hopen ha hclose => by
    obtain ⟨callee, h'⟩ := h.mono fun t ht => hl t (by simp [ht])
    obtain ⟨arguments, ha'⟩ := ha.mono fun t ht => hl t (by simp [ht])
    exact ⟨_, .call h' hopen ha' hclose⟩

theorem Arguments.mono {leaf' : Token → Node → Prop} {w : List Token} {nodes : List Node}
    (hl : ∀ token ∈ w, ∀ node, leaf token node → ∃ node', leaf' token node') :
    Arguments leaf w nodes → ∃ nodes', Arguments leaf' w nodes'
  | .none => ⟨_, .none⟩
  | .last h => by
    obtain ⟨node, h'⟩ := h.mono hl
    exact ⟨_, .last h'⟩
  | .more h hcomma hrest => by
    obtain ⟨node, h'⟩ := h.mono fun t ht => hl t (List.mem_append_left _ ht)
    obtain ⟨nodes, hrest'⟩ := hrest.mono fun t ht => hl t (by simp [ht])
    exact ⟨_, .more h' hcomma hrest'⟩

end

/-- A chain starts with a name. -/
theorem Chain.head {w : List Token} {node : Node} :
    Chain leaf w node → ∃ name tail, w = name :: tail ∧ name.kind = .identifier
  | .name hk => ⟨_, [], rfl, hk⟩
  | .access h _ _ => by
    obtain ⟨name, tail, rfl, hk⟩ := h.head
    exact ⟨name, _, rfl, hk⟩
  | .call h _ _ _ => by
    obtain ⟨name, tail, rfl, hk⟩ := h.head
    exact ⟨name, _, rfl, hk⟩

/-! ## Where an expression ends -/

/-- No call and no access starts with these tokens. -/
def Stops (rest : List Token) : Prop :=
  ∀ next ∈ rest.head?, next.kind ≠ .leftParen ∧ next.kind ≠ .dot

theorem stops_endOfInput (line : Int) : Stops [{ kind := .endOfInput, lexeme := "", line }] := by
  intro next hnext
  cases hnext
  exact ⟨nofun, nofun⟩

/-- An expression in front of `rest` that takes all that it can: a chain is not followed by one more
call or access. -/
def Ends (leaf : Token → Node → Prop) (w rest : List Token) (node : Node) : Prop :=
  Expression leaf w node ∧ ((∃ chain, Chain leaf w chain) → Stops rest)

theorem Ends.mono {leaf' : Token → Node → Prop} {w rest : List Token} {node : Node}
    (hl : ∀ token ∈ w, (∃ node, leaf token node) ↔ ∃ node, leaf' token node)
    (h : Ends leaf w rest node) : ∃ node', Ends leaf' w rest node' := by
  obtain ⟨he, hstop⟩ := h
  obtain ⟨node', he'⟩ := he.mono fun token ht node hn => (hl token ht).1 ⟨node, hn⟩
  refine ⟨node', he', ?_⟩
  rintro ⟨chain, hc⟩
  exact hstop (hc.mono fun token ht node hn => (hl token ht).2 ⟨node, hn⟩)

/-- An expression by the kinds of its tokens alone, whatever the trees of its leaves are, that ends
where `rest` begins. -/
def Accepted (w rest : List Token) : Prop :=
  ∃ node, Ends (fun token _ => isLeaf token.kind) w rest node

end Splice.Grammar
