import Splice.Proofs.Wrapping

/-!
# `Splice.Proofs.Filling` — templates and what fills them

A template is text with names in spans. Filled in, it is the same text with the values of the names
in the places of the spans. That is its value, but for two kinds of templates, which are taken for
something else by their ends: text behind a single span that ends with a closing brace is taken for
a part of the span, and single quotes at the two ends are dropped, whatever stands between them.

## Contents
- `Template`, `source`, `filled`: a template, its text, and its text with values for the names.
- `segments_source`, `templateOf_source`: a template falls into the pieces that it is made of.
- `eval_parts`, `outcome_template`: the value of its tree is the filled text.
- `IsSpan`, `LooksLikeSpan`, `isSpan_or_looksLikeSpan`: which templates are taken for a span.
- `Quoted`, `unquoted`, `stripQuotes_source_of_quoted`: which templates lose quotes, and what is
  left of them.
- `evaluate_source`: the value of the text of a template.
-/

namespace Splice

open Splice.Span
  (Segment enclose Opens Reopens segments not_opens_of_notMem not_opens_of_within)

/-! ## Templates -/

/-- Text with names in spans. -/
inductive Template where
  | text (text : List Char)
  | hole (before : List Char) (name : Identifier) (rest : Template)

namespace Template

/-- The text of a template with something in the places of the spans. -/
def write (fill : Identifier → List Char) : Template → List Char
  | .text cs => cs
  | .hole before name rest => before ++ fill name ++ rest.write fill

/-- The text of a template. -/
def source (t : Template) : List Char := t.write fun x => enclose x.chars

/-- The text of a template with values in the places of the spans. -/
def filled (values : Identifier → Value) (t : Template) : List Char :=
  t.write fun x => (values x).display.toList

/-- The names in a template, from left to right. -/
def names : Template → List Identifier
  | .text _ => []
  | .hole _ name rest => name :: rest.names

/-- No opening mark stands in the text around the spans. -/
def Plain : Template → Prop
  | .text cs => ¬ Opens cs
  | .hole before _ rest => ¬ Opens before ∧ rest.Plain

/-- The names are bound to the values, none of which is a deferred tree. -/
def Bound (context : Option Context) (values : Identifier → Value) (t : Template) : Prop :=
  ∀ x ∈ t.names, (Context.withBuiltins context).lookup? x.token.lexeme = some (values x) ∧
    ∀ identity node, values x ≠ .deferred identity node

variable {t : Template} {values : Identifier → Value}

/-! ## The pieces of a template -/

/-- The pieces that a template is made of. -/
def pieces : Template → List Segment
  | .text cs => if cs.isEmpty then [] else [.literal cs]
  | .hole before name rest => .literal before :: .span name.chars :: rest.pieces

/-- The trees of the pieces. -/
def parts : Template → List Node
  | .text cs => if cs.isEmpty then [] else [Node.ofText (String.ofList cs)]
  | .hole before name rest =>
    Node.ofText (String.ofList before) :: .reference name.token :: rest.parts

theorem firstSpan?_hole {before : List Char} {name : Identifier} {rest : List Char}
    (hb : ¬ Opens before) :
    Span.firstSpan? (before ++ enclose name.chars ++ rest) = some (before, name.chars, rest) := by
  have hsource : before ++ enclose name.chars ++ rest =
      before ++ '$' :: '{' :: name.chars ++ '}' :: rest := by
    simp [enclose]
  rw [hsource]
  exact Span.firstSpan?_append hb name.brace_notMem

/-- A template falls into the pieces that it is made of. -/
theorem segments_source (h : t.Plain) : segments t.source = t.pieces := by
  induction t with
  | text cs => exact Span.segments_of_not_hasSpan fun hs => h hs.opens
  | hole before name rest ih =>
    have hfirst : Span.firstSpan? (hole before name rest).source =
        some (before, name.chars, rest.source) := firstSpan?_hole h.1
    rw [Span.segments_of_firstSpan? hfirst, ih h.2, pieces]

theorem forall₂_parts (t : Template) :
    List.Forall₂ (Grammar.Part Node.ofChars) t.pieces t.parts := by
  induction t with
  | text cs =>
    unfold pieces parts
    split
    · exact .nil
    · exact .cons (.literal cs) .nil
  | hole before name rest ih =>
    have hname : Node.ofChars name.chars = .ok (.program (.reference name.token)) :=
      Phrase.ofChars_write (.chain (.name name))
    exact .cons (.literal before) (.cons (.span hname) ih)

/-- A template has the trees of its pieces. -/
theorem templateOf_source (h : t.Plain) :
    Node.templateOf Node.ofChars t.source = .ok (.template t.parts) := by
  rw [Grammar.templateOf_eq_ok_iff, segments_source h]
  exact ⟨t.parts, t.forall₂_parts, rfl⟩

/-! ## The value of a template -/

/-- The values of the pieces. -/
def contents (values : Identifier → Value) : Template → List Value
  | .text cs => if cs.isEmpty then [] else [.text (String.ofList cs)]
  | .hole before name rest =>
    .text (String.ofList before) :: values name :: rest.contents values

variable {host : Host} {context : Option Context}

theorem eval_ofText {scopes : Context} {depth : Nat} (text : String) :
    eval host scopes (depth + 1) (Node.ofText text) = pure (.text text) := rfl

theorem eval_reference {scopes : Context} {depth : Nat} {name : Token} {v : Value}
    (h : scopes.lookup? name.lexeme = some v) (hv : ∀ identity node, v ≠ .deferred identity node) :
    eval host scopes (depth + 1) (.reference name) = pure v := by
  rw [eval, h]
  split
  · next heq => cases heq
  · next identity node heq => exact absurd (Option.some.inj heq) (hv identity node)
  · next heq => rw [Option.some.inj heq]

/-- The pieces have their values. -/
theorem eval_parts {depth : Nat} (h : t.Bound context values) :
    t.parts.mapM (eval host (Context.withBuiltins context) (depth + 1)) =
      pure (t.contents values) := by
  induction t with
  | text cs =>
    unfold parts contents
    split
    · rfl
    · rw [List.mapM_cons, eval_ofText, List.mapM_nil, pure_bind, pure_bind]
  | hole before name rest ih =>
    have hrest : rest.Bound context values := fun x hx => h x (List.mem_cons_of_mem _ hx)
    obtain ⟨hname, hvalue⟩ := h name (List.mem_cons_self ..)
    rw [parts, contents, List.mapM_cons, List.mapM_cons, eval_ofText, eval_reference hname hvalue,
      ih hrest, pure_bind, pure_bind, pure_bind]
    rfl

theorem join_contents (t : Template) :
    String.join ((t.contents values).map Value.display) = String.ofList (t.filled values) := by
  induction t with
  | text cs =>
    unfold contents filled write
    split
    · next h =>
      rw [List.isEmpty_iff.1 h]
      rfl
    · rw [List.map_singleton, String.join_cons, String.join_nil, Value.display, String.append_empty]
  | hole before name rest ih =>
    rw [contents, List.map_cons, List.map_cons, String.join_cons, String.join_cons, ih, filled,
      filled, write, String.ofList_append, String.ofList_append, String.ofList_toList,
      Value.display, String.append_assoc]

/-- The value of the tree of a template is the filled text. -/
theorem outcome_template (h : t.Bound context values) (journal : Journal) :
    (Node.template t.parts).outcome host context journal =
      (.ok (.text (String.ofList (t.filled values))), journal) := by
  have heval : (Node.template t.parts).evaluate host context =
      pure (.text (String.ofList (t.filled values))) := by
    rw [Node.evaluate, depthLimit, eval, eval_parts h, pure_bind, join_contents]
  rw [Node.outcome, heval]
  rfl

/-! ## Templates that look like a span -/

/-- The template is one span and nothing else. -/
def IsSpan (t : Template) : Prop := ∃ name, t = .hole [] name (.text [])

/-- The template is one span with text behind it that ends with a closing brace. -/
def LooksLikeSpan (t : Template) : Prop :=
  ∃ name after, t = .hole [] name (.text (after ++ ['}']))

theorem count_source (h : t.Plain) : Span.count t.source = t.names.length := by
  have hpieces : ∀ t : Template, (t.pieces.filterMap Segment.source?).length = t.names.length := by
    intro t
    induction t with
    | text cs =>
      unfold pieces
      split <;> rfl
    | hole before name rest ih => exact congrArg Nat.succ ih
  rw [Span.count, segments_source h, hpieces]

/-- Text without opening marks is empty if an opening mark stands at the front of it and a span. -/
theorem eq_nil_of_isPrefixOf {before source rest : List Char} (hb : ¬ Opens before)
    (h : ['$', '{'].isPrefixOf (before ++ enclose source ++ rest) = true) : before = [] := by
  match before, hb, h with
  | [], _, _ => rfl
  | [c], _, h =>
    obtain ⟨tail, heq⟩ := List.isPrefixOf_iff_prefix.1 h
    injection heq with _ heq
    injection heq with hmark _
    exact absurd hmark (by decide)
  | c :: d :: before, hb, h =>
    obtain ⟨tail, heq⟩ := List.isPrefixOf_iff_prefix.1 h
    injection heq with hc heq
    injection heq with hd _
    exact absurd ⟨[], before, by rw [← hc, ← hd]; rfl⟩ hb

/-- A template that is taken for a span is one, or it looks like one. -/
theorem isSpan_or_looksLikeSpan (hp : t.Plain) (ht : Text.trim t.source = t.source)
    (h : Span.isSingleSpan t.source = true) : t.IsSpan ∨ t.LooksLikeSpan := by
  unfold Span.isSingleSpan at h
  rw [ht, Bool.and_eq_true, Bool.and_eq_true, count_source hp, beq_iff_eq] at h
  obtain ⟨⟨hopen, hclose⟩, hcount⟩ := h
  cases t with
  | text cs => cases hcount
  | hole before name rest =>
    -- there is one name, so only text stands behind it
    cases rest with
    | hole between other rest => cases Nat.succ.inj hcount
    | text after =>
      obtain rfl := eq_nil_of_isPrefixOf hp.1 hopen
      rcases List.eq_nil_or_concat after with rfl | ⟨init, last, rfl⟩
      · exact .inl ⟨name, rfl⟩
      · obtain ⟨front, heq⟩ := List.isSuffixOf_iff_suffix.1 hclose
        have hsource : (hole [] name (text (init.concat last))).source =
            (enclose name.chars ++ init) ++ [last] := by
          rw [List.concat_eq_append, List.append_assoc]
          rfl
        rw [hsource] at heq
        have hlast := List.append_inj' heq rfl
        rw [List.concat_eq_append, ← hlast.2]
        exact .inr ⟨name, init, rfl⟩

/-- What looks like a span is read as one, and fails at the first closing brace. -/
theorem readChars_source_of_looksLikeSpan (hp : t.Plain) (h : t.LooksLikeSpan) :
    Node.readChars t.source = .error (.scan (.unrecognizedCharacter '}' 1)) := by
  obtain ⟨name, after, rfl⟩ := h
  -- the two closing braces are taken for one, the last, with the other one in the expression
  have hsource : (hole [] name (text (after ++ ['}']))).source =
      enclose (name.chars ++ '}' :: after) := by
    simp [source, write, enclose]
  have hreopens : ¬ Reopens (name.chars ++ '}' :: after) := by
    rw [Span.reopens_append_iff name.brace_notMem]
    rintro ⟨before, rest, rfl⟩
    exact hp.2 ⟨before, rest ++ ['}'], by rw [List.append_assoc]; rfl⟩
  have hbrace : Scan.scanFrom 1 ('}' :: after) = .error (.unrecognizedCharacter '}' 1) := by
    have hstep : Scan.scanToken 1 '}' after = .error (.unrecognizedCharacter '}' 1) := rfl
    rw [Scan.scanFrom]
    split
    · next step h =>
      rw [hstep] at h
      cases h
    · next e h =>
      rw [hstep] at h
      cases h
      rfl
  have hscan : scan (name.chars ++ '}' :: after) = .error (.unrecognizedCharacter '}' 1) := by
    have hname : Lexes name.chars [name.token] ('}' :: after) := name.lexes (endsWord_cons rfl)
    rw [Lexes, hbrace] at hname
    exact hname
  rw [hsource, Node.readChars_enclose_of_not_reopens hreopens, Grammar.ofChars_eq, hscan]

/-! ## Quotes at the ends -/

/-- Single quotes stand at both ends of the text. -/
def Quoted (cs : List Char) : Prop := cs.head? = some '\'' ∧ cs.getLast? = some '\''

/-- The text in front of the first span. -/
def first : Template → List Char
  | .text cs => cs
  | .hole before _ _ => before

/-- The text behind the last span. -/
def last : Template → List Char
  | .text cs => cs
  | .hole _ _ rest => rest.last

/-- The template without the last character of the text behind the last span. -/
def dropEnd : Template → Template
  | .text cs => .text cs.dropLast
  | .hole before name rest => .hole before name rest.dropEnd

/-- The template without the characters at the two ends of its text. -/
def unquoted : Template → Template
  | .text cs => .text cs.tail.dropLast
  | .hole before name rest => .hole before.tail name rest.dropEnd

variable {fill : Identifier → List Char}

theorem write_ne_nil (h : t.last ≠ []) : t.write fill ≠ [] := by
  induction t with
  | text cs => exact h
  | hole before name rest ih => exact List.append_ne_nil_of_right_ne_nil _ (ih h)

theorem write_dropEnd (h : t.last ≠ []) : t.dropEnd.write fill = (t.write fill).dropLast := by
  induction t with
  | text cs => rfl
  | hole before name rest ih =>
    have hrest : rest.last ≠ [] := h
    rw [dropEnd, write, write, List.dropLast_append_of_ne_nil (write_ne_nil hrest), ih hrest]

/-- What stands in the places of the spans does not matter for the ends. -/
theorem write_unquoted (hn : t.names ≠ []) (hf : t.first ≠ []) (hl : t.last ≠ []) :
    t.unquoted.write fill = (t.write fill).tail.dropLast := by
  cases t with
  | text cs => exact absurd rfl hn
  | hole before name rest =>
    have hbefore : before ≠ [] := hf
    have hrest : rest.last ≠ [] := hl
    rw [unquoted, write, write, write_dropEnd hrest, List.append_assoc, List.append_assoc,
      List.tail_append_of_ne_nil hbefore, ← List.append_assoc, ← List.append_assoc,
      List.dropLast_append_of_ne_nil (write_ne_nil hrest)]

theorem names_unquoted (t : Template) : t.unquoted.names = t.names := by
  have hend : ∀ t : Template, t.dropEnd.names = t.names := by
    intro t
    induction t with
    | text cs => rfl
    | hole before name rest ih => exact congrArg (name :: ·) ih
  cases t with
  | text cs => rfl
  | hole before name rest => exact congrArg (name :: ·) (hend rest)

theorem Plain.unquoted (h : t.Plain) : t.unquoted.Plain := by
  have hend : ∀ t : Template, t.Plain → t.dropEnd.Plain := by
    intro t ht
    induction t with
    | text cs => exact not_opens_of_within (List.dropLast_prefix cs).isInfix ht
    | hole before name rest ih => exact ⟨ht.1, ih ht.2⟩
  cases t with
  | text cs =>
    have htail : cs.tail.dropLast <:+: cs :=
      (List.dropLast_prefix _).isInfix.trans (List.tail_suffix cs).isInfix
    exact not_opens_of_within htail h
  | hole before name rest =>
    exact ⟨not_opens_of_within (List.tail_suffix before).isInfix h.1, hend rest h.2⟩

/-- Quotes at the ends of a template stand in the text around its spans. -/
theorem ends_ne_nil_of_quoted (h : Quoted t.source) : t.first ≠ [] ∧ t.last ≠ [] := by
  obtain ⟨hhead, hlast⟩ := h
  constructor
  · rintro hf
    cases t with
    | text cs =>
      rw [source, write, show cs = [] from hf] at hhead
      cases hhead
    | hole before name rest =>
      rw [source, write, show before = [] from hf] at hhead
      cases hhead
  · clear hhead
    induction t with
    | text cs =>
      rintro rfl
      cases hlast
    | hole before name rest ih =>
      -- if nothing stood behind the span, its closing brace would be the last character
      apply ih
      rw [source, write, List.getLast?_append] at hlast
      cases hrest : rest.source.getLast? with
      | some c =>
        rw [source] at hrest
        rw [hrest] at hlast
        exact hlast
      | none =>
        rw [source] at hrest
        rw [hrest, List.getLast?_append, enclose, List.getLast?_concat] at hlast
        cases hlast

theorem stripQuotes_source_of_quoted (hn : t.names ≠ []) (h : Quoted t.source) :
    Node.stripQuotes t.source = t.unquoted.source := by
  obtain ⟨hf, hl⟩ := ends_ne_nil_of_quoted h
  have hlength : 2 ≤ t.source.length := by
    cases t with
    | text cs => exact absurd rfl hn
    | hole before name rest =>
      simp only [source, write, enclose, List.length_append, List.length_cons]
      omega
  have hquotes : (2 ≤ t.source.length && t.source.head? == some '\'' &&
      t.source.getLast? == some '\'') = true := by
    rw [h.1, h.2, decide_eq_true hlength]
    rfl
  rw [Node.stripQuotes, if_pos hquotes, List.drop_one]
  exact (write_unquoted hn hf hl).symm

theorem stripQuotes_source_of_not_quoted (h : ¬ Quoted t.source) :
    Node.stripQuotes t.source = t.source := by
  apply if_neg
  intro hs
  rw [Bool.and_eq_true, Bool.and_eq_true, beq_iff_eq, beq_iff_eq] at hs
  exact h ⟨hs.1.2, hs.2⟩

/-! ## The value of the text of a template -/

/-- The filled text is not itself without its ends. -/
theorem filled_tail_dropLast_ne (h : t.last ≠ []) :
    String.ofList (t.filled values).tail.dropLast ≠ String.ofList (t.filled values) := by
  intro heq
  have hlength := congrArg List.length (String.ofList_injective heq)
  have hpos : 0 < (t.filled values).length := List.length_pos_iff.2 (write_ne_nil h)
  rw [List.length_dropLast, List.length_tail] at hlength
  omega

/-- A template that does not look like a span has spans in it, and is read as a template. -/
theorem readChars_source (hp : t.Plain) (ht : Text.trim t.source = t.source) (hn : t.names ≠ [])
    (hs : ¬ t.IsSpan) (hl : ¬ t.LooksLikeSpan) :
    Node.readChars t.source = Node.templateOf Node.ofChars (Node.stripQuotes t.source) := by
  have hnot : Span.singleSpan? t.source = none := by
    apply if_neg
    intro h
    exact (isSpan_or_looksLikeSpan hp ht h).elim hs hl
  have hspans : Span.hasSpans t.source = true := by
    cases t with
    | text cs => exact absurd rfl hn
    | hole before name rest =>
      have hfirst : Span.firstSpan? (hole before name rest).source =
          some (before, name.chars, rest.source) := firstSpan?_hole hp.1
      rw [Span.hasSpans, ht]
      exact Option.isSome_of_eq_some hfirst
  rw [Node.readChars, ht, hnot]
  exact if_pos hspans

theorem evaluate_source_of_looksLikeSpan (hp : t.Plain) (hl : t.LooksLikeSpan) (journal : Journal) :
    evaluate host context (String.ofList t.source) journal =
      (.error (.source (.scan (.unrecognizedCharacter '}' 1))), journal) := by
  have hread : Node.read (String.ofList t.source) =
      .error (.scan (.unrecognizedCharacter '}' 1)) := by
    rw [Node.read, String.toList_ofList, readChars_source_of_looksLikeSpan hp hl]
  rw [evaluate, hread]

/-- A text that is read as a template has the filled text of the template as its value. -/
theorem evaluate_of_readChars {text : List Char}
    (h : Node.readChars text = Node.templateOf Node.ofChars t.source) (hp : t.Plain)
    (hb : t.Bound context values) (journal : Journal) :
    evaluate host context (String.ofList text) journal =
      (.ok (.text (String.ofList (t.filled values))), journal) := by
  have hread : Node.read (String.ofList text) = .ok (.template t.parts) := by
    rw [Node.read, String.toList_ofList, h, templateOf_source hp]
  rw [evaluate_of_read hread, outcome_template hb]

theorem evaluate_source_of_quoted (hn : t.names ≠ []) (hp : t.Plain) (hb : t.Bound context values)
    (ht : Text.trim t.source = t.source) (hq : Quoted t.source) (journal : Journal) :
    evaluate host context (String.ofList t.source) journal =
      (.ok (.text (String.ofList (t.filled values).tail.dropLast)), journal) := by
  obtain ⟨hfirst, hlast⟩ := ends_ne_nil_of_quoted hq
  have hs : ¬ t.IsSpan := by
    rintro ⟨name, rfl⟩
    exact hfirst rfl
  have hl : ¬ t.LooksLikeSpan := by
    rintro ⟨name, after, rfl⟩
    exact hfirst rfl
  have hread : Node.readChars t.source = Node.templateOf Node.ofChars t.unquoted.source := by
    rw [readChars_source hp ht hn hs hl, stripQuotes_source_of_quoted hn hq]
  have hbound : t.unquoted.Bound context values := by
    unfold Bound
    rw [names_unquoted]
    exact hb
  have hfilled : t.unquoted.filled values = (t.filled values).tail.dropLast :=
    write_unquoted hn hfirst hlast
  rw [evaluate_of_readChars hread hp.unquoted hbound, hfilled]

/-- **A template has the filled text as its value exactly if it neither looks like a span nor has
single quotes at both ends.** If it looks like a span, its closing brace is no token; if it has
quotes at its ends, the filled text is the value without them, even if they are quotes of two
texts. -/
theorem evaluate_source (t : Template) (values : Identifier → Value) (host : Host)
    (context : Option Context) (journal : Journal) (hn : t.names ≠ []) (hp : t.Plain)
    (hb : t.Bound context values) (ht : Text.trim t.source = t.source) (hs : ¬ t.IsSpan) :
    let answer := evaluate host context (String.ofList t.source) journal
    (answer = (.ok (.text (String.ofList (t.filled values))), journal) ↔
      ¬ t.LooksLikeSpan ∧ ¬ Quoted t.source) ∧
    (t.LooksLikeSpan →
      answer = (.error (.source (.scan (.unrecognizedCharacter '}' 1))), journal)) ∧
    (Quoted t.source →
      answer = (.ok (.text (String.ofList (t.filled values).tail.dropLast)), journal)) := by
  intro answer
  refine ⟨⟨fun h => ⟨?_, ?_⟩, ?_⟩, fun hl => ?_, fun hq => ?_⟩
  · intro hl
    have hspan := (evaluate_source_of_looksLikeSpan hp hl journal).symm.trans h
    cases hspan
  · intro hq
    have heq := (evaluate_source_of_quoted hn hp hb ht hq journal).symm.trans h
    injection heq with heq
    injection heq with heq
    injection heq with heq
    exact filled_tail_dropLast_ne (ends_ne_nil_of_quoted hq).2 heq
  · rintro ⟨hl, hq⟩
    have hread := readChars_source hp ht hn hs hl
    rw [stripQuotes_source_of_not_quoted hq] at hread
    exact evaluate_of_readChars hread hp hb journal
  · exact evaluate_source_of_looksLikeSpan hp hl journal
  · exact evaluate_source_of_quoted hn hp hb ht hq journal

/-- A scope that binds `a` to a text and `b` to another one. -/
def twoTexts : Context :=
  ((Context.new "host").define "a" (.text "x")).define "b" (.text "y")

/-- A span and a closing brace behind it. -/
def spanAndBrace : Template := .hole [] nameA (.text [' ', '}'])

/-- Two spans in quotes. -/
def twoQuotes : Template := .hole ['\''] nameA (.hole "' and '".toList nameB (.text ['\'']))

theorem bound_twoTexts (hn : ∀ x ∈ t.names, x = nameA ∨ x = nameB) :
    t.Bound (some twoTexts) fun x => if x.first = 'a' then .text "x" else .text "y" := by
  intro x hx
  rcases hn x hx with rfl | rfl
  · exact ⟨rfl, nofun⟩
  · exact ⟨rfl, nofun⟩

theorem evaluate_source_ends :
    evaluate Host.empty (some twoTexts) (String.ofList spanAndBrace.source) Journal.new =
      (.error (.source (.scan (.unrecognizedCharacter '}' 1))), Journal.new) ∧
    evaluate Host.empty (some twoTexts) (String.ofList twoQuotes.source) Journal.new =
      (.ok (.text "x' and 'y"), Journal.new) := by
  have hbrace := evaluate_source spanAndBrace _ Host.empty (some twoTexts) Journal.new nofun
    ⟨not_opens_of_notMem (by decide), not_opens_of_notMem (by decide)⟩
    (bound_twoTexts (by simp [spanAndBrace, names])) (by decide) (by rintro ⟨name, h⟩; cases h)
  have hquotes := evaluate_source twoQuotes _ Host.empty (some twoTexts) Journal.new nofun
    ⟨not_opens_of_notMem (by decide), not_opens_of_notMem (by decide),
      not_opens_of_notMem (by decide)⟩
    (bound_twoTexts (by simp [twoQuotes, names])) (by decide) (by rintro ⟨name, h⟩; cases h)
  exact ⟨hbrace.2.1 ⟨nameA, [' '], rfl⟩, hquotes.2.2 ⟨rfl, rfl⟩⟩

end Template

end Splice
