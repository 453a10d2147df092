import Splice.Text.Blank

/-!
# `Splice.Span` — the spans of a template

A template is text with spans: a dollar sign and an opening brace, any characters but closing
braces, and a closing brace. Spans do not nest; each ends at the first closing brace.

## Contents
- `firstSpan?`: the leftmost span, with the text before it and the text after it.
- `segments`: a text as literal pieces and spans in turn.
- `hasSpans`, `isSingleSpan`, `singleSpan?`: what a text, blanks at its ends apart, looks like.
-/

namespace Splice.Span

/-! ## Finding spans -/

/-- The characters up to the first closing brace, and those after it. -/
def close? : List Char → Option (List Char × List Char)
  | [] => none
  | c :: cs =>
    if c = '}' then some ([], cs) else (close? cs).map fun (inner, rest) => (c :: inner, rest)

/-- The source of a span that starts the text, and the text after the span. -/
def open? : List Char → Option (List Char × List Char)
  | '$' :: '{' :: cs => close? cs
  | _ => none

/-- The text before the leftmost span, the source of the span and the text after it. -/
def firstSpan? : List Char → Option (List Char × List Char × List Char)
  | [] => none
  | c :: cs =>
    match open? (c :: cs) with
    | some (source, rest) => some ([], source, rest)
    | none => (firstSpan? cs).map fun (before, source, rest) => (c :: before, source, rest)

variable {cs before source rest : List Char}

/-- What `close?` takes apart is what it was given, the brace put back. -/
theorem eq_of_close? (h : close? cs = some (source, rest)) :
    cs = source ++ '}' :: rest ∧ '}' ∉ source := by
  induction cs generalizing source with
  | nil => simp [close?] at h
  | cons c cs ih =>
    unfold close? at h
    split at h
    · next hc =>
      simp only [Option.some.injEq, Prod.mk.injEq] at h
      simp [← h.1, ← h.2, hc]
    · next hc =>
      obtain ⟨⟨s, r⟩, hs, heq⟩ := Option.map_eq_some_iff.1 h
      simp only [Prod.mk.injEq] at heq
      obtain ⟨rfl, rfl⟩ := heq
      obtain ⟨hcs, hmem⟩ := ih hs
      refine ⟨by rw [hcs]; rfl, ?_⟩
      simp only [List.mem_cons, not_or]
      exact ⟨fun h => hc h.symm, hmem⟩

theorem eq_of_open? (h : open? cs = some (source, rest)) :
    cs = '$' :: '{' :: source ++ '}' :: rest ∧ '}' ∉ source := by
  unfold open? at h
  split at h
  · obtain ⟨hcs, hmem⟩ := eq_of_close? h
    exact ⟨by rw [hcs]; rfl, hmem⟩
  · simp at h

/-- What `firstSpan?` takes apart is what it was given, the marks put back. -/
theorem eq_of_firstSpan? (h : firstSpan? cs = some (before, source, rest)) :
    cs = before ++ '$' :: '{' :: source ++ '}' :: rest ∧ '}' ∉ source := by
  induction cs generalizing before with
  | nil => simp [firstSpan?] at h
  | cons c cs ih =>
    unfold firstSpan? at h
    split at h
    · next hopen =>
      simp only [Option.some.injEq, Prod.mk.injEq] at h
      obtain ⟨rfl, rfl, rfl⟩ := h
      exact eq_of_open? hopen
    · obtain ⟨⟨b, s, r⟩, hs, heq⟩ := Option.map_eq_some_iff.1 h
      simp only [Prod.mk.injEq] at heq
      obtain ⟨rfl, rfl, rfl⟩ := heq
      obtain ⟨hcs, hmem⟩ := ih hs
      exact ⟨by rw [hcs]; rfl, hmem⟩

theorem firstSpan?_length (h : firstSpan? cs = some (before, source, rest)) :
    before.length + source.length + rest.length + 3 = cs.length := by
  have hcs := (eq_of_firstSpan? h).1
  rw [hcs]
  simp only [List.length_append, List.length_cons]
  omega

/-! ## Segments -/

/-- A piece of a template. -/
inductive Segment where
  /-- Text that stands for itself. -/
  | literal (text : List Char)
  /-- The source of an expression, without the marks around it. -/
  | span (source : List Char)
  deriving DecidableEq, Repr

/-- The source of a span. -/
def Segment.source? : Segment → Option (List Char)
  | literal _ => none
  | span source => some source

/-- The segments of a text, from left to right. A literal, perhaps empty, stands before each span;
one after the last span stands only if it is not empty. -/
def segments (cs : List Char) : List Segment :=
  match _h : firstSpan? cs with
  | some (before, source, rest) => .literal before :: .span source :: segments rest
  | none => if cs.isEmpty then [] else [.literal cs]
termination_by cs.length
decreasing_by
  have := firstSpan?_length _h
  omega

/-- The number of spans in a text. -/
def count (cs : List Char) : Nat := ((segments cs).filterMap Segment.source?).length

/-! ## What a text looks like -/

/-- A span stands somewhere in the text. -/
def hasSpans (cs : List Char) : Bool := (firstSpan? (Text.trim cs)).isSome

/-- The text looks like one span: its ends are the marks of a span and there is exactly one span. -/
def isSingleSpan (cs : List Char) : Bool :=
  let text := Text.trim cs
  ['$', '{'].isPrefixOf text && ['}'].isSuffixOf text && count text == 1

/-- The source of a text that looks like one span: all that stands between the outermost marks. -/
def singleSpan? (cs : List Char) : Option (List Char) :=
  if isSingleSpan cs then some ((Text.trim cs).drop 2).dropLast else none

end Splice.Span
