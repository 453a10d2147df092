import Mathlib.Data.List.Infix
import Splice.Span

/-!
# `Splice.Proofs.Spans` — where the spans of a text are

The leftmost span begins at the first opening mark that a closing brace follows, and it ends at the
first closing brace behind that mark. Everything else about spans follows: how often the search
succeeds, how a text falls into segments, and how many spans it has.

## Contents
- `Opens`, `HasSpan`: a text holds an opening mark, or a whole span.
- `firstSpan?_append`: the leftmost span, when its place is known.
- `firstSpan?_eq_none_iff`: a search fails exactly on texts without spans.
- `segments_of_firstSpan?`, `count_of_firstSpan?`: segments and spans, counted from the left.
- `count_eq_zero_iff`: a text has no spans if its search fails.
- `length_of_mem_segments`: a span is shorter than its text.
- `hasSpans_eq_false_of_not_hasSpan`: blanks at the ends of a text do not matter.
-/

namespace Splice.Span

variable {cs before source rest : List Char} {c : Char}

/-- An opening mark stands in the text. -/
def Opens (cs : List Char) : Prop := ∃ before rest, cs = before ++ '$' :: '{' :: rest

/-- A span stands in the text. -/
def HasSpan (cs : List Char) : Prop :=
  ∃ before source rest, cs = before ++ '$' :: '{' :: source ++ '}' :: rest

theorem HasSpan.opens (h : HasSpan cs) : Opens cs := by
  obtain ⟨before, source, rest, rfl⟩ := h
  exact ⟨before, source ++ '}' :: rest, by rw [List.append_assoc]; rfl⟩

theorem not_opens_of_notMem (h : '$' ∉ cs) : ¬ Opens cs := by
  rintro ⟨before, rest, rfl⟩
  exact h (List.mem_append_right before (List.mem_cons_self ..))

theorem not_opens_nil : ¬ Opens [] := not_opens_of_notMem List.not_mem_nil

/-- A piece of a text without opening marks has none. -/
theorem not_opens_of_within {ds : List Char} (hi : cs <:+: ds) (h : ¬ Opens ds) : ¬ Opens cs := by
  rintro ⟨before, rest, rfl⟩
  obtain ⟨front, back, rfl⟩ := hi
  exact h ⟨front ++ before, rest ++ back, by simp⟩

/-! ## The leftmost span -/

theorem close?_append (h : '}' ∉ source) :
    close? (source ++ '}' :: rest) = some (source, rest) := by
  induction source with
  | nil => rfl
  | cons c source ih =>
    rw [List.mem_cons, not_or] at h
    rw [List.cons_append, close?, if_neg (Ne.symm h.1), ih h.2]
    rfl

theorem close?_eq_none_iff : close? cs = none ↔ '}' ∉ cs := by
  induction cs with
  | nil => exact ⟨fun _ => List.not_mem_nil, fun _ => rfl⟩
  | cons c cs ih =>
    rw [close?, List.mem_cons, not_or]
    by_cases hc : c = '}'
    · rw [if_pos hc]
      exact ⟨fun h => absurd h (Option.some_ne_none _), fun h => absurd hc.symm h.1⟩
    · rw [if_neg hc, Option.map_eq_none_iff, ih]
      exact ⟨fun h => ⟨Ne.symm hc, h⟩, fun h => h.2⟩

theorem open?_mark : open? ('$' :: '{' :: cs) = close? cs := rfl

/-- No span starts where no opening mark does. -/
theorem open?_eq_none (h : ∀ rest, cs ≠ '$' :: '{' :: rest) : open? cs = none := by
  unfold open?
  split
  · next rest => exact absurd rfl (h rest)
  · rfl

/-- The leftmost span starts at the first opening mark and ends at the first closing brace behind
it. -/
theorem firstSpan?_append (hb : ¬ Opens before) (hs : '}' ∉ source) :
    firstSpan? (before ++ '$' :: '{' :: source ++ '}' :: rest) = some (before, source, rest) := by
  induction before with
  | nil =>
    rw [List.nil_append, List.cons_append, List.cons_append, firstSpan?, open?_mark,
      close?_append hs]
  | cons c before ih =>
    have htail : ¬ Opens before := by
      rintro ⟨b, r, rfl⟩
      exact hb ⟨c :: b, r, rfl⟩
    -- an opening mark at `c` would stand in `before`, or be a dollar sign in front of another one
    have hopen : open? (c :: (before ++ '$' :: '{' :: source ++ '}' :: rest)) = none := by
      apply open?_eq_none
      intro r heq
      injection heq with hc heq
      cases before with
      | nil =>
        injection heq with heq _
        exact absurd heq (by decide)
      | cons d before =>
        injection heq with hd _
        exact hb ⟨[], before, by rw [hc, hd]; rfl⟩
    rw [List.cons_append, List.cons_append, firstSpan?, hopen, ih htail]
    rfl

/-- A search that fails says that there is no span. -/
theorem firstSpan?_eq_none_iff : firstSpan? cs = none ↔ ¬ HasSpan cs := by
  constructor
  · rintro h ⟨before, source, rest, rfl⟩
    induction before with
    | nil =>
      have hclose : close? (source ++ '}' :: rest) ≠ none := by
        rw [Ne, close?_eq_none_iff]
        simp
      rw [List.nil_append, List.cons_append, List.cons_append, firstSpan?, open?_mark] at h
      split at h
      · exact absurd h (Option.some_ne_none _)
      · next hnone => exact hclose hnone
    | cons c before ih =>
      rw [List.cons_append, List.cons_append, firstSpan?] at h
      split at h
      · exact absurd h (Option.some_ne_none _)
      · exact ih (Option.map_eq_none_iff.1 h)
  · intro h
    cases hf : firstSpan? cs with
    | none => rfl
    | some found =>
      obtain ⟨before, source, rest⟩ := found
      exact absurd ⟨before, source, rest, (eq_of_firstSpan? hf).1⟩ h

/-! ## Segments -/

theorem segments_of_firstSpan? (h : firstSpan? cs = some (before, source, rest)) :
    segments cs = .literal before :: .span source :: segments rest := by
  rw [segments]
  split
  · next hf =>
    rw [h] at hf
    cases hf
    rfl
  · next hf =>
    rw [h] at hf
    cases hf

theorem segments_of_not_hasSpan (h : ¬ HasSpan cs) :
    segments cs = if cs.isEmpty then [] else [.literal cs] := by
  have hnone := firstSpan?_eq_none_iff.2 h
  rw [segments]
  split
  · next hf =>
    rw [hnone] at hf
    cases hf
  · rfl

theorem count_of_firstSpan? (h : firstSpan? cs = some (before, source, rest)) :
    count cs = count rest + 1 := by
  unfold count
  rw [segments_of_firstSpan? h]
  rfl

/-- A text without spans is what the count calls one. -/
theorem count_eq_zero_iff : count cs = 0 ↔ ¬ HasSpan cs := by
  constructor
  · intro h
    rw [← firstSpan?_eq_none_iff]
    cases hf : firstSpan? cs with
    | none => rfl
    | some found =>
      obtain ⟨before, source, rest⟩ := found
      rw [count_of_firstSpan? hf] at h
      exact absurd h (Nat.succ_ne_zero _)
  · intro h
    unfold count
    rw [segments_of_not_hasSpan h]
    split <;> rfl

/-- A span is shorter than the text it stands in. -/
theorem length_of_mem_segments (h : .span source ∈ segments cs) : source.length < cs.length := by
  induction cs using segments.induct with
  | case1 cs before first rest hf ih =>
    rw [segments_of_firstSpan? hf] at h
    have hlen := firstSpan?_length hf
    rcases List.mem_cons.1 h with h | h
    · cases h
    · rcases List.mem_cons.1 h with h | h
      · injection h with h
        rw [h]
        omega
      · have := ih h
        omega
  | case2 cs hf hempty =>
    rw [segments_of_not_hasSpan (firstSpan?_eq_none_iff.1 hf), if_pos hempty] at h
    cases h
  | case3 cs hf hempty =>
    rw [segments_of_not_hasSpan (firstSpan?_eq_none_iff.1 hf), if_neg hempty] at h
    cases List.mem_singleton.1 h

/-! ## Blanks at the ends -/

/-- A text without spans has none when the blanks at its ends are gone. -/
theorem hasSpans_eq_false_of_not_hasSpan (h : ¬ HasSpan cs) : hasSpans cs = false := by
  have htrim : Text.trim cs <:+: cs := by
    have hend : Text.trim cs <+: Text.trimStart cs := by
      have hsuffix := List.dropWhile_suffix Text.isBlank (l := (Text.trimStart cs).reverse)
      simpa [Text.trim, Text.trimEnd, Text.trimStart] using List.reverse_prefix.2 hsuffix
    exact hend.isInfix.trans (List.dropWhile_suffix Text.isBlank).isInfix
  have hnone : firstSpan? (Text.trim cs) = none := by
    rw [firstSpan?_eq_none_iff]
    rintro ⟨before, source, rest, heq⟩
    -- a span of the trimmed text is one of the whole text
    obtain ⟨front, back, hcs⟩ := htrim
    refine h ⟨front ++ before, source, rest ++ back, ?_⟩
    rw [← hcs, heq]
    simp
  rw [hasSpans, hnone]
  rfl

end Splice.Span
