import Splice.Proofs.Recognition
import Splice.Proofs.Scanning
import Splice.Proofs.Spans

/-!
# `Splice.Proofs.Acceptance` — which texts are expressions

The tokens of a text end with the only end of the input among them, and the numbers among them can
be read. On such tokens the machine finds an expression exactly if some stand in front that the
grammar derives, by the kinds of the tokens alone, and whose quoted templates are templates.

## Contents
- `parseTokens_congr`, `templateOf_congr`, `expandText_congr`: the machine asks for the trees of its
  own tokens, and a template for those of its own spans.
- `ofChars_eq`: an expression is scanned and parsed, its spans being expressions again.
- `exists_leaf_of_isLeaf`: a token that is a leaf by its kind has a tree.
- `parseTokens_scan`: what is found, if anything is.
-/

namespace Splice.Grammar

open Machine (State step run)

/-! ## Trees of texts -/

variable {expand expand' : Token → Except SourceError Node}
  {read read' : List Char → Except SourceError Node}

theorem step_congr {state : State} {token : Token}
    (h : token.kind = .text → expand token = expand' token) :
    step expand state token = step expand' state token := by
  have hop : Machine.operand expand token = Machine.operand expand' token := by
    unfold Machine.operand
    split
    case h_5 hk => rw [h hk]
    all_goals rfl
  unfold step
  rw [hop]

theorem run_congr {state : State} {last : Token} {tokens : List Token}
    (h : ∀ token ∈ tokens, token.kind = .text → expand token = expand' token) :
    run expand state last tokens = run expand' state last tokens := by
  induction tokens generalizing state last with
  | nil => rfl
  | cons token tokens ih =>
    have hrest : ∀ t ∈ tokens, t.kind = .text → expand t = expand' t :=
      fun t ht => h t (List.mem_cons_of_mem _ ht)
    rw [run, run, step_congr (h token (List.mem_cons_self ..))]
    split
    · exact ih hrest
    · rfl
    · rfl

/-- The machine asks for the trees of its own texts only. -/
theorem parseTokens_congr {tokens : List Token}
    (h : ∀ token ∈ tokens, token.kind = .text → expand token = expand' token) :
    parseTokens expand tokens = parseTokens expand' tokens := by
  rw [parseTokens, parseTokens, run_congr h]

theorem mapM_congr {ε α β : Type} {f g : α → Except ε β} {xs : List α}
    (h : ∀ x ∈ xs, f x = g x) : xs.mapM f = xs.mapM g := by
  induction xs with
  | nil => rfl
  | cons x xs ih =>
    rw [List.mapM_cons, List.mapM_cons, h x (List.mem_cons_self ..),
      ih fun y hy => h y (List.mem_cons_of_mem _ hy)]

/-- A template asks for the trees of its own spans only. -/
theorem templateOf_congr {text : List Char}
    (h : ∀ source, .span source ∈ Span.segments text → read source = read' source) :
    Node.templateOf read text = Node.templateOf read' text := by
  have hparts : (Span.segments text).mapM (readPart read) =
      (Span.segments text).mapM (readPart read') := by
    apply mapM_congr
    intro segment hs
    cases segment with
    | literal text => rfl
    | span source => rw [readPart, readPart, h source hs]
  rw [templateOf_eq, templateOf_eq, hparts]

theorem expandText_congr {token : Token}
    (h : ∀ source, .span source ∈ Span.segments token.lexeme.toList → read source = read' source) :
    Node.expandText read token = Node.expandText read' token := by
  rw [Node.expandText, Node.expandText, templateOf_congr h]

/-- An expression is scanned and parsed, and the spans of its texts are expressions again. -/
theorem ofChars_eq (source : List Char) :
    Node.ofChars source =
      match scan source with
      | .error e => .error (.scan e)
      | .ok tokens => parseTokens (Node.expandText Node.ofChars) tokens := by
  rw [Node.ofChars]
  cases hscan : scan source with
  | error e => rfl
  | ok tokens =>
    apply parseTokens_congr
    intro token ht hk
    apply expandText_congr
    intro inner hinner
    -- a span is shorter than its text, which is shorter than the source that it is quoted in
    have hlexeme := Scan.length_of_mem_scan hscan ht hk
    have hspan := Span.length_of_mem_segments hinner
    exact dif_pos (Nat.lt_trans hspan hlexeme)

/-! ## Acceptance -/

/-- Segments whose spans are expressions have trees. -/
theorem exists_parts {segments : List Span.Segment}
    (hs : ∀ source, .span source ∈ segments → ∃ node, read source = .ok node) :
    ∃ parts, List.Forall₂ (Part read) segments parts := by
  induction segments with
  | nil => exact ⟨[], .nil⟩
  | cons segment segments ih =>
    obtain ⟨parts, hp⟩ := ih fun source h => hs source (List.mem_cons_of_mem _ h)
    cases segment with
    | literal text => exact ⟨_ :: parts, .cons (.literal text) hp⟩
    | span source =>
      obtain ⟨node, hn⟩ := hs source (List.mem_cons_self ..)
      exact ⟨_ :: parts, .cons (.span hn) hp⟩

/-- A token that is a leaf by its kind has a tree, if it is legible and its spans are
expressions. -/
theorem exists_leaf_of_isLeaf {token : Token} (h : Scan.Legible token) (hk : isLeaf token.kind)
    (hs : token.kind = .text → ∀ source, .span source ∈ Span.segments token.lexeme.toList →
      ∃ node, read source = .ok node) :
    ∃ node, Leaf read token node := by
  simp only [isLeaf, List.mem_cons, List.not_mem_nil, or_false] at hk
  rcases hk with hk | hk | hk | hk | hk | hk
  · obtain ⟨i, hi⟩ := h.integer hk
    exact ⟨_, .integer hk hi⟩
  · obtain ⟨x, hx⟩ := h.float hk
    exact ⟨_, .float hk hx⟩
  · exact ⟨_, .truth (.inl hk)⟩
  · exact ⟨_, .truth (.inr hk)⟩
  · cases hspans : Span.hasSpans token.lexeme.toList with
    | false => exact ⟨_, .text hk hspans⟩
    | true =>
      obtain ⟨parts, hp⟩ := exists_parts (hs hk)
      exact ⟨_, .template hk hspans hp⟩
  · exact ⟨_, .semicolon hk⟩

/-- Among the tokens of a text whose spans are expressions, those with a tree are those that are
leaves by their kind. -/
theorem isLeaf_iff_exists_leaf {text : List Char} {tokens : List Token}
    (hscan : scan text = .ok tokens)
    (hs : ∀ token ∈ tokens, token.kind = .text →
      ∀ source, .span source ∈ Span.segments token.lexeme.toList → ∃ node, read source = .ok node)
    {token : Token} (ht : token ∈ tokens) :
    isLeaf token.kind ↔ ∃ node, Leaf read token node := by
  constructor
  · intro hk
    obtain ⟨init, line, rfl, hinit⟩ := Scan.scan_eq_ok hscan
    have htext := hs token ht
    rcases List.mem_append.1 ht with ht | ht
    · exact exists_leaf_of_isLeaf (hinit token ht) hk htext
    · rw [List.mem_singleton.1 ht] at hk
      exact absurd rfl hk.ne.2.1
  · rintro ⟨node, hn⟩
    exact hn.isLeaf

theorem exists_isLeaf_iff {token : Token} : (∃ _ : Node, isLeaf token.kind) ↔ isLeaf token.kind :=
  ⟨fun ⟨_, h⟩ => h, fun h => ⟨Node.ofText "", h⟩⟩

/-- Just the end of the input stands for the empty text. -/
theorem parseTokens_endOfInput {text : List Char} {tokens : List Token}
    (hscan : scan text = .ok tokens) (h : tokens.map Token.kind = [.endOfInput]) :
    parseTokens (Node.expandText read) tokens = .ok (.program (Node.ofText "")) := by
  obtain ⟨init, line, rfl, -⟩ := Scan.scan_eq_ok hscan
  have hnil : init = [] := by
    have hlen := congrArg List.length h
    rw [List.map_append, List.length_append, List.length_map] at hlen
    exact List.length_eq_zero_iff.1 (Nat.succ.inj hlen)
  rw [hnil]
  rfl

/-- What the grammar accepts by the kinds of the tokens has one tree, if its leaves have trees, and
that is the answer whatever follows. -/
theorem exists_tree_of_accepted {w rest : List Token}
    (hl : ∀ token ∈ w, isLeaf token.kind ↔ ∃ node, Leaf read token node) (h : Accepted w rest) :
    ∃ node, (∀ tree, Expression (Leaf read) w tree ↔ tree = node) ∧
      ∀ rest', Accepted w rest' →
        parseTokens (Node.expandText read) (w ++ rest') = .ok (.program node) := by
  have hleaf : ∀ token ∈ w, (∃ _ : Node, isLeaf token.kind) ↔ ∃ node, Leaf read token node :=
    fun token ht => exists_isLeaf_iff.trans (hl token ht)
  obtain ⟨skeleton, hends⟩ := h
  obtain ⟨node, hnode⟩ := hends.mono hleaf
  refine ⟨node, fun tree => ⟨fun h => hnode.1.unique h, fun h => h ▸ hnode.1⟩, ?_⟩
  rintro rest' ⟨skeleton', hends'⟩
  obtain ⟨node', hnode'⟩ := hends'.mono hleaf
  rw [← hnode.1.unique hnode'.1]
  exact parseTokens_of_ends hnode'

/-- An answer is the empty text, or else the grammar accepts some tokens that stand in front. -/
theorem accepted_of_parseTokens {text : List Char} {tokens : List Token} {node : Node}
    (hscan : scan text = .ok tokens)
    (hl : ∀ token ∈ tokens, isLeaf token.kind ↔ ∃ node, Leaf read token node)
    (h : parseTokens (Node.expandText read) tokens = .ok node) :
    tokens.map Token.kind = [.endOfInput] ∨ ∃ w rest, tokens = w ++ rest ∧ Accepted w rest := by
  obtain ⟨init, line, rfl, hinit⟩ := Scan.scan_eq_ok hscan
  obtain ⟨tree, hrun, -⟩ := map_eq_ok_iff.1 h
  have hread : Reading (Leaf read) .initial [] := Reading.initial
  -- soundness gives an expression over trees of leaves; only the kinds of its tokens matter here
  rcases hread.run (fun token ht => (hinit token ht).ne_endOfInput) rfl hrun with
    ⟨hnil, -⟩ | ⟨w, rest, heq, hends⟩
  · rw [List.nil_append] at hnil
    rw [hnil]
    exact .inl rfl
  · rw [List.nil_append] at hends
    refine .inr ⟨w, rest, heq, hends.mono fun token ht => ?_⟩
    have ht' : token ∈ init ++ [{ kind := .endOfInput, lexeme := "", line }] :=
      heq ▸ List.mem_append_left _ ht
    exact (hl token ht').symm.trans exists_isLeaf_iff.symm

/-- **The machine accepts exactly the grammar.** The tokens of a text whose spans are expressions
are accepted if they are just the end of the input, which stands for the empty text, or if the
grammar accepts some of them that stand in front; these have one tree, which is the answer whatever
tokens follow them. -/
theorem parseTokens_scan {text : List Char} {tokens : List Token} (hscan : scan text = .ok tokens)
    (hs : ∀ token ∈ tokens, token.kind = .text →
      ∀ source, .span source ∈ Span.segments token.lexeme.toList →
        ∃ node, Node.ofChars source = .ok node) :
    ((∃ node, parseTokens (Node.expandText Node.ofChars) tokens = .ok node) ↔
      tokens.map Token.kind = [.endOfInput] ∨ ∃ w rest, tokens = w ++ rest ∧ Accepted w rest) ∧
    (tokens.map Token.kind = [.endOfInput] →
      parseTokens (Node.expandText Node.ofChars) tokens = .ok (.program (Node.ofText ""))) ∧
    ∀ w rest, tokens = w ++ rest → Accepted w rest →
      ∃ node, (∀ tree, Expression (Leaf Node.ofChars) w tree ↔ tree = node) ∧
        ∀ rest', Accepted w rest' →
          parseTokens (Node.expandText Node.ofChars) (w ++ rest') = .ok (.program node) := by
  have hl : ∀ token ∈ tokens, isLeaf token.kind ↔ ∃ node, Leaf Node.ofChars token node :=
    fun token ht => isLeaf_iff_exists_leaf hscan hs ht
  have hfront : ∀ w rest, tokens = w ++ rest → ∀ token ∈ w,
      isLeaf token.kind ↔ ∃ node, Leaf Node.ofChars token node :=
    fun w rest heq token ht => hl token (heq ▸ List.mem_append_left _ ht)
  refine ⟨⟨?_, ?_⟩, parseTokens_endOfInput hscan, ?_⟩
  · rintro ⟨node, hparse⟩
    exact accepted_of_parseTokens hscan hl hparse
  · rintro (h | ⟨w, rest, heq, haccepted⟩)
    · exact ⟨_, parseTokens_endOfInput hscan h⟩
    · obtain ⟨node, -, hparse⟩ := exists_tree_of_accepted (hfront w rest heq) haccepted
      rw [heq]
      exact ⟨_, hparse rest haccepted⟩
  · intro w rest heq haccepted
    exact exists_tree_of_accepted (hfront w rest heq) haccepted

/-- The tokens of a call with a template among its arguments and a comma behind the last one. -/
def callTokens : List Token :=
  [⟨.identifier, "f", 1⟩, ⟨.leftParen, "(", 1⟩, ⟨.text, "${x}", 1⟩, ⟨.comma, ",", 1⟩,
    ⟨.rightParen, ")", 1⟩, ⟨.endOfInput, "", 1⟩]

theorem parseTokens_scan_call :
    scan "f('${x}',)".toList = .ok callTokens ∧
    (∀ token ∈ callTokens, token.kind = .text →
      ∀ source, .span source ∈ Span.segments token.lexeme.toList →
        ∃ node, Node.ofChars source = .ok node) ∧
    ((∃ node, parseTokens (Node.expandText Node.ofChars) callTokens = .ok node) ↔
      callTokens.map Token.kind = [.endOfInput] ∨
        ∃ w rest, callTokens = w ++ rest ∧ Accepted w rest) := by
  have hscan : scan "f('${x}',)".toList = .ok callTokens := by decide +kernel
  have hs : ∀ token ∈ callTokens, token.kind = .text →
      ∀ source, .span source ∈ Span.segments token.lexeme.toList →
        ∃ node, Node.ofChars source = .ok node := by
    intro token ht hk source hsource
    have hspans : ∀ token ∈ callTokens, token.kind = .text →
        Span.segments token.lexeme.toList = [.literal [], .span ['x']] := by decide +kernel
    rw [hspans token ht hk] at hsource
    have hname : scan ['x'] = .ok [⟨.identifier, "x", 1⟩, ⟨.endOfInput, "", 1⟩] := by
      decide +kernel
    rcases List.mem_cons.1 hsource with heq | hsource
    · cases heq
    · injection List.mem_singleton.1 hsource with heq
      rw [heq, ofChars_eq, hname]
      exact ⟨_, rfl⟩
  exact ⟨hscan, hs, (parseTokens_scan hscan hs).1⟩

end Splice.Grammar
