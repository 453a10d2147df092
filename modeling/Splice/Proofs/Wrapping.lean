import Splice.Eval
import Splice.Proofs.Writing

/-!
# `Splice.Proofs.Wrapping` — an expression in a span

A text that is one span stands for the expression in the span. Whether a text is one span is told by
counting spans, and a span ends at the first closing brace, so the templates among the quoted texts
of the expression count as well: the first of them closes the span around the expression, and each
further one is a span of its own.

## Contents
- `Span.enclose`, `Span.Reopens`: a source as a span, and when that is more than one span.
- `count_enclose`, `isSingleSpan_enclose`, `hasSpans_enclose`: what a source in a span looks like.
- `readChars_enclose_of_not_reopens`, `readChars_enclose_of_reopens`: how it is read;
  `readChars_of_bare` is about texts without spans.
- `Node.outcome`, `Node.outcome_eq_iff`, `evaluate_of_read`, `evaluate_eq_ok_iff`: to evaluate a
  text is to evaluate its tree.
- `read_enclose`: an expression in a span keeps its tree exactly if the span is not reopened.
-/

namespace Splice

/-! ## What an expression in a span looks like -/

namespace Span

/-- The text that is a span with this source between its marks. -/
def enclose (source : List Char) : List Char := '$' :: '{' :: source ++ ['}']

/-- An opening mark stands behind a closing brace. -/
def Reopens (source : List Char) : Prop :=
  ∃ before rest, source = before ++ '}' :: rest ∧ Opens rest

variable {source inner rest : List Char}

theorem trim_enclose (source : List Char) : Text.trim (enclose source) = enclose source := by
  have hstart : Text.trimStart (enclose source) = enclose source :=
    Text.trimStart_cons_of_not_blank (by decide)
  have hend : Text.trimEnd (enclose source) = enclose source :=
    Text.trimEnd_concat_of_not_blank (by decide)
  rw [Text.trim, hstart, hend]

/-- A closing brace at the end closes every span that was opened. -/
theorem hasSpan_concat_iff : HasSpan (rest ++ ['}']) ↔ Opens rest := by
  constructor
  · rintro ⟨before, source, tail, heq⟩
    rcases List.eq_nil_or_concat tail with rfl | ⟨init, last, rfl⟩
    · have hfront := (List.append_inj' heq rfl).1
      exact ⟨before, source, hfront⟩
    · rw [List.concat_eq_append, ← List.cons_append, ← List.append_assoc] at heq
      have hfront := (List.append_inj' heq rfl).1
      refine ⟨before, source ++ '}' :: init, ?_⟩
      rw [hfront, List.append_assoc]
      rfl
  · rintro ⟨before, source, rfl⟩
    exact ⟨before, source, [], rfl⟩

/-- The first closing brace decides whether a span is opened behind one. -/
theorem reopens_append_iff (h : '}' ∉ inner) : Reopens (inner ++ '}' :: rest) ↔ Opens rest := by
  constructor
  · rintro ⟨before, tail, heq, b, r, rfl⟩
    rcases List.append_eq_append_iff.1 heq with ⟨front, rfl, hrest⟩ | ⟨front, rfl, hrest⟩
    · cases front with
      | nil =>
        injection hrest with _ hrest
        exact ⟨b, r, hrest⟩
      | cons c front =>
        injection hrest with _ hrest
        refine ⟨front ++ '}' :: b, r, ?_⟩
        rw [hrest, List.append_assoc]
        rfl
    · cases front with
      | nil =>
        injection hrest with _ hrest
        exact ⟨b, r, hrest.symm⟩
      | cons c front =>
        injection hrest with hc _
        rw [← hc] at h
        exact absurd (List.mem_append_right before (List.mem_cons_self ..)) h
  · intro hrest
    exact ⟨inner, rest, rfl, hrest⟩

/-- A source in a span is one span exactly if the span is not reopened. -/
theorem count_enclose : count (enclose source) = 1 ↔ ¬ Reopens source := by
  by_cases hmem : '}' ∈ source
  · -- the first closing brace of the source ends the span, and the rest has spans of its own
    obtain ⟨inner, rest, rfl, hinner⟩ := List.eq_append_cons_of_mem hmem
    have hsource : enclose (inner ++ '}' :: rest) =
        [] ++ '$' :: '{' :: inner ++ '}' :: (rest ++ ['}']) := by
      simp [enclose]
    have hfirst :
        firstSpan? (enclose (inner ++ '}' :: rest)) = some ([], inner, rest ++ ['}']) := by
      rw [hsource]
      exact firstSpan?_append not_opens_nil hinner
    have hone : count (rest ++ ['}']) + 1 = 1 ↔ count (rest ++ ['}']) = 0 := by omega
    rw [count_of_firstSpan? hfirst, hone, count_eq_zero_iff, hasSpan_concat_iff,
      reopens_append_iff hinner]
  · have hfirst : firstSpan? (enclose source) = some ([], source, []) :=
      firstSpan?_append not_opens_nil hmem
    have hnot : ¬ Reopens source := by
      rintro ⟨before, rest, rfl, -⟩
      exact hmem (List.mem_append_right before (List.mem_cons_self ..))
    rw [count_of_firstSpan? hfirst, count_eq_zero_iff.2 fun h => not_opens_nil h.opens]
    exact ⟨fun _ => hnot, fun _ => rfl⟩

/-- A source without closing braces is the only piece of its span, the empty text before it
apart. -/
theorem segments_enclose (h : '}' ∉ source) :
    segments (enclose source) = [.literal [], .span source] := by
  have hfirst : firstSpan? (enclose source) = some ([], source, []) :=
    firstSpan?_append not_opens_nil h
  rw [segments_of_firstSpan? hfirst, segments_of_not_hasSpan fun h => not_opens_nil h.opens]
  rfl

theorem isSingleSpan_enclose : isSingleSpan (enclose source) = true ↔ ¬ Reopens source := by
  have hopen : ['$', '{'].isPrefixOf (enclose source) = true := rfl
  have hclose : ['}'].isSuffixOf (enclose source) = true := by
    rw [List.isSuffixOf_iff_suffix]
    exact ⟨'$' :: '{' :: source, rfl⟩
  rw [← count_enclose, isSingleSpan, trim_enclose, hopen, hclose]
  exact beq_iff_eq

theorem singleSpan?_enclose_of_not_reopens (h : ¬ Reopens source) :
    singleSpan? (enclose source) = some source := by
  rw [singleSpan?, if_pos (isSingleSpan_enclose.2 h), trim_enclose]
  exact congrArg some List.dropLast_concat

theorem singleSpan?_enclose_of_reopens (h : Reopens source) :
    singleSpan? (enclose source) = none := by
  rw [singleSpan?, if_neg fun hs => isSingleSpan_enclose.1 hs h]

theorem hasSpans_enclose (source : List Char) : hasSpans (enclose source) = true := by
  have hspan : HasSpan (enclose source) := ⟨[], source, [], rfl⟩
  rw [hasSpans, trim_enclose, Option.isSome_iff_ne_none]
  exact fun hnone => firstSpan?_eq_none_iff.1 hnone hspan

end Span

open Splice.Span (enclose Reopens)

/-! ## How it is read -/

namespace Node

variable {source : List Char}

/-- A span that is not reopened is read as its source. -/
theorem readChars_enclose_of_not_reopens (h : ¬ Reopens source) :
    readChars (enclose source) = ofChars source := by
  rw [readChars, Span.trim_enclose, Span.singleSpan?_enclose_of_not_reopens h]

/-- One that is reopened is read as a template. -/
theorem readChars_enclose_of_reopens (h : Reopens source) :
    readChars (enclose source) = templateOf ofChars (enclose source) := by
  have hquotes : stripQuotes (enclose source) = enclose source :=
    if_neg (by simp [enclose])
  rw [readChars, Span.trim_enclose, Span.singleSpan?_enclose_of_reopens h]
  dsimp only
  rw [if_pos (Span.hasSpans_enclose source), hquotes]

/-- A text without dollar signs and without blanks at its ends is read as an expression. -/
theorem readChars_of_bare (hdollar : '$' ∉ source) (htrim : Text.trim source = source) :
    readChars source = ofChars source := by
  have hspan : ¬ Span.HasSpan source := fun h => Span.not_opens_of_notMem hdollar h.opens
  have hsingle : Span.singleSpan? source = none := by
    rw [Span.singleSpan?, Span.isSingleSpan, htrim, Span.count_eq_zero_iff.2 hspan]
    simp
  rw [readChars, htrim, hsingle]
  dsimp only
  rw [Span.hasSpans_eq_false_of_not_hasSpan hspan]
  rfl

/-- The tree of an expression is a whole one. -/
theorem exists_body_of_ofChars {node : Node} (h : ofChars source = .ok node) :
    ∃ body, node = .program body := by
  rw [Grammar.ofChars_eq] at h
  cases hscan : scan source with
  | error e =>
    rw [hscan] at h
    cases h
  | ok tokens =>
    rw [hscan] at h
    obtain ⟨body, -, hbody⟩ := Grammar.map_eq_ok_iff.1 h
    exact ⟨body, hbody⟩

/-- What is an expression is not a template. -/
theorem templateOf_ne_of_ofChars {read : List Char → Except SourceError Node} {text : List Char}
    {node : Node} (h : ofChars source = .ok node) : templateOf read text ≠ .ok node := by
  intro ht
  obtain ⟨parts, -, rfl⟩ := Grammar.templateOf_eq_ok_iff.1 ht
  obtain ⟨body, hbody⟩ := exists_body_of_ofChars h
  cases hbody

/-- What a tree comes to: its value, or why it has none, and the journal behind it. -/
def outcome (host : Host) (context : Option Context) (journal : Journal) (node : Node) :
    Except Failure Value × Journal :=
  let (outcome, journal) := (node.evaluate host context).run.run journal
  (outcome.mapError Failure.ofHalt, journal)

end Node

/-- To evaluate a text is to evaluate its tree. -/
theorem evaluate_of_read {text : String} {node : Node} (h : Node.read text = .ok node) (host : Host)
    (context : Option Context) (journal : Journal) :
    evaluate host context text journal = node.outcome host context journal := by
  rw [evaluate, h]
  rfl

/-- What a tree comes to is what its evaluation ends with, unless that reaches its limit. -/
theorem Node.outcome_eq_iff {node : Node} {host : Host} {context : Option Context}
    {journal after : Journal} (result : Except EvalError Value) :
    node.outcome host context journal = (result.mapError .eval, after) ↔
      (node.evaluate host context).run.run journal = (result.mapError .failed, after) := by
  have hmap : ∀ ended : Except Halt Value × Journal,
      (ended.1.mapError Failure.ofHalt, ended.2) = (result.mapError .eval, after) ↔
        ended = (result.mapError .failed, after) := by
    rintro ⟨(_ | _) | v, left⟩ <;> cases result <;> simp [Except.mapError, Failure.ofHalt]
  exact hmap ((node.evaluate host context).run.run journal)

/-- A tree has a value exactly if its evaluation ends with it. -/
theorem Node.outcome_eq_ok_iff {node : Node} {host : Host} {context : Option Context}
    {journal after : Journal} {v : Value} :
    node.outcome host context journal = (.ok v, after) ↔
      (node.evaluate host context).run.run journal = (.ok v, after) :=
  outcome_eq_iff (.ok v)

/-- A text has a value exactly if it can be read and its tree has the value. -/
theorem evaluate_eq_ok_iff {text : String} {host : Host} {context : Option Context}
    {journal after : Journal} {v : Value} :
    evaluate host context text journal = (.ok v, after) ↔
      ∃ node, Node.read text = .ok node ∧
        (node.evaluate host context).run.run journal = (.ok v, after) := by
  cases hread : Node.read text with
  | error e =>
    rw [evaluate, hread]
    simp
  | ok node =>
    rw [evaluate_of_read hread, Node.outcome_eq_ok_iff]
    simp

/-- **An expression in a span keeps its tree exactly if the span is not reopened.** Then the text
has the value of the expression; otherwise it is read as a template, cut at the closing braces of
the expression. -/
theorem read_enclose {source : String} {node : Node} (h : Node.ofExpression source = .ok node) :
    let text := String.ofList (enclose source.toList)
    (Node.read text = .ok node ↔ ¬ Reopens source.toList) ∧
    (¬ Reopens source.toList → ∀ host context journal,
      evaluate host context text journal = node.outcome host context journal) ∧
    (Reopens source.toList → Node.read text = Node.ofTemplate text) := by
  intro text
  have hread : Node.read text = Node.readChars (enclose source.toList) := by
    rw [Node.read, String.toList_ofList]
  have htemplate : Node.ofTemplate text = Node.templateOf Node.ofChars (enclose source.toList) := by
    rw [Node.ofTemplate, String.toList_ofList]
  have hkept : ¬ Reopens source.toList → Node.read text = .ok node := by
    intro hr
    rw [hread, Node.readChars_enclose_of_not_reopens hr]
    exact h
  have hcut : Reopens source.toList → Node.read text = Node.ofTemplate text := by
    intro hr
    rw [hread, Node.readChars_enclose_of_reopens hr, htemplate]
  refine ⟨⟨fun hok hr => ?_, hkept⟩, fun hr => evaluate_of_read (hkept hr), hcut⟩
  rw [hcut hr, htemplate] at hok
  exact Node.templateOf_ne_of_ofChars h hok

/-- The tree of a template that is one span with a name in it. -/
def nameTemplate (x : Identifier) : Node := .template [Node.ofText "", .reference x.token]

theorem leaf_nameTemplate (x : Identifier) {token : Token} (hk : token.kind = .text)
    (hl : token.lexeme.toList = enclose x.chars) :
    Grammar.Leaf Node.ofChars token (nameTemplate x) := by
  have hname : Node.ofChars x.chars = .ok (.program (.reference x.token)) :=
    Phrase.ofChars_write (.chain (.name x))
  have hsegments := Span.segments_enclose x.brace_notMem
  refine .template hk ?_ ?_
  · rw [hl]
    exact Span.hasSpans_enclose x.chars
  · rw [hl, hsegments]
    exact .cons (.literal []) (.cons (.span hname) .nil)

/-- Two names. -/
def nameA : Identifier := ⟨'a', [], rfl, nofun, by decide⟩

def nameB : Identifier := ⟨'b', [], rfl, nofun, by decide⟩

/-- A call with two templates among its arguments. -/
def concatenation : String := "concat('${a}','${b}')"

theorem read_enclose_concatenation :
    let node : Node := .program
      (.call (.reference ⟨.identifier, "concat", 1⟩) [nameTemplate nameA, nameTemplate nameB])
    let text := String.ofList (enclose concatenation.toList)
    Node.ofExpression concatenation = .ok node ∧ Node.read text ≠ .ok node ∧
      Node.read text = .error (.scan (.unterminatedString 1)) := by
  intro node text
  have hscan : scan concatenation.toList = .ok
      ([⟨.identifier, "concat", 1⟩] ++ ⟨.leftParen, "(", 1⟩ ::
        ([⟨.text, "${a}", 1⟩] ++ ⟨.comma, ",", 1⟩ :: [⟨.text, "${b}", 1⟩]) ++
        [⟨.rightParen, ")", 1⟩] ++ [⟨.endOfInput, "", 1⟩]) := by
    decide +kernel
  have hnode : Node.ofExpression concatenation = .ok node := by
    rw [Node.ofExpression, Grammar.ofChars_eq, hscan]
    have ha : Grammar.Leaf Node.ofChars ⟨.text, "${a}", 1⟩ (nameTemplate nameA) :=
      leaf_nameTemplate nameA rfl rfl
    have hb : Grammar.Leaf Node.ofChars ⟨.text, "${b}", 1⟩ (nameTemplate nameB) :=
      leaf_nameTemplate nameB rfl rfl
    refine Grammar.parseTokens_of_ends ⟨.chain (.call (.name rfl) rfl ?_ rfl), fun _ => ?_⟩
    · exact .more (.leaf ha) rfl (.last (.leaf hb))
    · exact Grammar.stops_endOfInput 1
  have hreopens : Reopens concatenation.toList :=
    ⟨"concat('$\x7ba".toList, "','$\x7bb\x7d')".toList, rfl, "','".toList, "b\x7d')".toList, rfl⟩
  obtain ⟨hiff, -, htemplate⟩ := read_enclose hnode
  refine ⟨hnode, fun h => hiff.1 h hreopens, ?_⟩
  have hsegments : Span.segments (enclose concatenation.toList) =
      [.literal [], .span "concat('$\x7ba".toList, .literal "','".toList, .span "b".toList,
        .literal "')\x7d".toList] := by
    decide +kernel
  have hinner : scan "concat('$\x7ba".toList = .error (.unterminatedString 1) := by
    decide +kernel
  have hspan : Node.ofChars "concat('$\x7ba".toList = .error (.scan (.unterminatedString 1)) := by
    rw [Grammar.ofChars_eq, hinner]
  rw [htemplate hreopens, Node.ofTemplate, String.toList_ofList, Grammar.templateOf_eq, hsegments]
  rw [List.mapM_cons, List.mapM_cons, Grammar.readPart, Grammar.readPart, hspan]
  rfl

end Splice
