import Splice.Proofs.Wrapping

/-!
# `Splice.Proofs.Segmentation` — the only way to cut a text

A text falls into literals and spans in turn, and nothing of it is lost. There is no choice in how
it falls apart: a list of pieces in which no literal hides a span, and no span a closing brace, is
what its own text is cut into.

## Contents
- `join`: the text that pieces are written as.
- `Alternates`, `Clean`: the shape of a list of pieces, and what its pieces may hold.
- `join_segments`, `alternates_segments`, `clean_segments`: what a text is cut into.
- `segments_join`: what pieces of this shape are cut into when they are written and read again.
- `hasSpans_iff_hasSpan`: blanks at the ends neither make a span nor hide one.
- `segments_eq_iff`: the three together.
-/

namespace Splice.Span

variable {cs before source rest text : List Char} {c : Char} {pieces : List Segment}

/-! ## Pieces -/

/-- A piece as text, a span with its marks. -/
def Segment.write : Segment → List Char
  | literal text => text
  | span source => enclose source

/-- The text of a list of pieces. -/
def join (pieces : List Segment) : List Char := pieces.flatMap Segment.write

/-- A literal stands before each span, and one that is not empty may stand at the end. -/
inductive Alternates : List Segment → Prop
  | nil : Alternates []
  | last {text : List Char} (h : text ≠ []) : Alternates [.literal text]
  | more {before source : List Char} {pieces : List Segment} (h : Alternates pieces) :
      Alternates (.literal before :: .span source :: pieces)

/-- The pieces hold nothing that would be cut in another way. -/
structure Clean (pieces : List Segment) : Prop where
  /-- A span goes on to the first closing brace. -/
  span : ∀ source, .span source ∈ pieces → '}' ∉ source
  /-- No span is opened before the one that a literal stands before. -/
  before : ∀ front text source back,
    pieces = front ++ .literal text :: .span source :: back → ¬ Opens text
  /-- A span that is opened behind the last one is not closed. -/
  last : ∀ front text, pieces = front ++ [.literal text] → ¬ HasSpan text

theorem join_more : join (.literal before :: .span source :: pieces) =
    before ++ '$' :: '{' :: source ++ '}' :: join pieces := by
  simp [join, Segment.write, enclose]

theorem clean_nil : Clean [] := by
  refine ⟨fun source h => ?_, fun front text source back h => ?_, fun front text h => ?_⟩
  · cases h
  · cases front <;> cases h
  · cases front <;> cases h

theorem clean_last (h : ¬ HasSpan text) : Clean [.literal text] := by
  refine ⟨fun source hmem => ?_, fun front t source back heq => ?_, fun front t heq => ?_⟩
  · cases List.mem_singleton.1 hmem
  · have hlength := congrArg List.length heq
    simp only [List.length_append, List.length_cons, List.length_nil] at hlength
    omega
  · cases front with
    | nil =>
      injection heq with heq
      injection heq with heq
      rwa [← heq]
    | cons piece front =>
      injection heq with _ heq
      cases front <;> cases heq

/-- What is clean is so piece by piece. -/
theorem clean_more_iff : Clean (.literal before :: .span source :: pieces) ↔
    ¬ Opens before ∧ '}' ∉ source ∧ Clean pieces := by
  constructor
  · intro h
    refine ⟨h.before [] before source pieces rfl, ?_, ?_, ?_, ?_⟩
    · exact h.span source (List.mem_cons_of_mem _ (List.mem_cons_self ..))
    · intro s hs
      exact h.span s (List.mem_cons_of_mem _ (List.mem_cons_of_mem _ hs))
    · rintro front text s back rfl
      exact h.before (.literal before :: .span source :: front) text s back rfl
    · rintro front text rfl
      exact h.last (.literal before :: .span source :: front) text rfl
  · rintro ⟨hbefore, hsource, h⟩
    refine ⟨fun s hs => ?_, fun front text s back heq => ?_, fun front text heq => ?_⟩
    · rcases List.mem_cons.1 hs with hs | hs
      · cases hs
      · rcases List.mem_cons.1 hs with hs | hs
        · injection hs with hs
          rwa [hs]
        · exact h.span s hs
    · match front, heq with
      | [], heq =>
        injection heq with heq _
        injection heq with heq
        rwa [← heq]
      | [_], heq =>
        injection heq with _ heq
        injection heq with heq _
        cases heq
      | _ :: _ :: front, heq =>
        injection heq with _ heq
        injection heq with _ heq
        exact h.before front text s back heq
    · match front, heq with
      | [], heq => cases heq
      | [_], heq =>
        injection heq with _ heq
        injection heq with heq _
        cases heq
      | _ :: _ :: front, heq =>
        injection heq with _ heq
        injection heq with _ heq
        exact h.last front text heq

/-! ## What a text is cut into -/

/-- Nothing of a text is lost, and nothing of it stands in two pieces. -/
theorem join_segments (cs : List Char) : join (segments cs) = cs := by
  induction cs using segments.induct with
  | case1 cs before source rest hf ih =>
    rw [segments_of_firstSpan? hf, join_more, ih]
    exact (eq_of_firstSpan? hf).1.symm
  | case2 cs hf hempty =>
    rw [segments_of_not_hasSpan (firstSpan?_eq_none_iff.1 hf), if_pos hempty]
    exact (List.isEmpty_iff.1 hempty).symm
  | case3 cs hf hempty =>
    rw [segments_of_not_hasSpan (firstSpan?_eq_none_iff.1 hf), if_neg hempty]
    exact List.append_nil cs

theorem alternates_segments (cs : List Char) : Alternates (segments cs) := by
  induction cs using segments.induct with
  | case1 cs before source rest hf ih =>
    rw [segments_of_firstSpan? hf]
    exact .more ih
  | case2 cs hf hempty =>
    rw [segments_of_not_hasSpan (firstSpan?_eq_none_iff.1 hf), if_pos hempty]
    exact .nil
  | case3 cs hf hempty =>
    rw [segments_of_not_hasSpan (firstSpan?_eq_none_iff.1 hf), if_neg hempty]
    exact .last fun h => hempty (List.isEmpty_iff.2 h)

/-- The text before the leftmost span opens none. -/
theorem not_opens_of_firstSpan? (h : firstSpan? cs = some (before, source, rest)) :
    ¬ Opens before := by
  induction cs generalizing before with
  | nil => cases h
  | cons c cs ih =>
    rw [firstSpan?] at h
    split at h
    · cases h
      exact not_opens_nil
    · next hopen =>
      obtain ⟨⟨b, s, r⟩, hfirst, heq⟩ := Option.map_eq_some_iff.1 h
      cases heq
      rintro ⟨front, back, heq⟩
      cases front with
      | nil =>
        -- a span is opened at `c`, and the brace that closes the leftmost span closes it, too
        injection heq with hc hb
        obtain ⟨hcs, -⟩ := eq_of_firstSpan? hfirst
        rw [hcs, hb, hc, List.append_assoc, List.cons_append, open?_mark,
          close?_eq_none_iff] at hopen
        exact hopen (by simp)
      | cons d front =>
        injection heq with _ hb
        exact ih hfirst ⟨front, back, hb⟩

theorem clean_segments (cs : List Char) : Clean (segments cs) := by
  induction cs using segments.induct with
  | case1 cs before source rest hf ih =>
    rw [segments_of_firstSpan? hf, clean_more_iff]
    exact ⟨not_opens_of_firstSpan? hf, (eq_of_firstSpan? hf).2, ih⟩
  | case2 cs hf hempty =>
    rw [segments_of_not_hasSpan (firstSpan?_eq_none_iff.1 hf), if_pos hempty]
    exact clean_nil
  | case3 cs hf hempty =>
    rw [segments_of_not_hasSpan (firstSpan?_eq_none_iff.1 hf), if_neg hempty]
    exact clean_last (firstSpan?_eq_none_iff.1 hf)

/-! ## What pieces are cut into -/

/-- Pieces of the right shape are what their text is cut into. -/
theorem segments_join (ha : Alternates pieces) (hc : Clean pieces) :
    segments (join pieces) = pieces := by
  induction ha with
  | nil =>
    show segments [] = []
    rw [segments_of_not_hasSpan fun h => not_opens_nil h.opens]
    rfl
  | @last text hne =>
    have hempty : ¬ text.isEmpty = true := fun h => hne (List.isEmpty_iff.1 h)
    have hjoin : join [.literal text] = text := List.append_nil text
    rw [hjoin, segments_of_not_hasSpan (hc.last [] text rfl), if_neg hempty]
  | @more before source pieces _ ih =>
    obtain ⟨hbefore, hsource, hrest⟩ := clean_more_iff.1 hc
    have hfirst : firstSpan? (join (.literal before :: .span source :: pieces)) =
        some (before, source, join pieces) := by
      rw [join_more]
      exact firstSpan?_append hbefore hsource
    rw [segments_of_firstSpan? hfirst, ih hrest]

/-! ## Blanks at the ends -/

/-- Blanks at the start are not part of a span. -/
theorem hasSpan_trimStart (h : HasSpan cs) : HasSpan (Text.trimStart cs) := by
  induction cs with
  | nil => exact h
  | cons c cs ih =>
    by_cases hc : Text.isBlank c = true
    · have hskip : Text.trimStart (c :: cs) = Text.trimStart cs := List.dropWhile_cons_of_pos hc
      rw [hskip]
      apply ih
      obtain ⟨before, source, rest, heq⟩ := h
      cases before with
      | nil =>
        -- a dollar sign is not blank
        injection heq with heq _
        rw [heq] at hc
        exact absurd hc (by decide)
      | cons d before =>
        injection heq with _ heq
        exact ⟨before, source, rest, heq⟩
    · have hkeep : Text.trimStart (c :: cs) = c :: cs :=
        Text.trimStart_cons_of_not_blank (Bool.eq_false_iff.2 hc)
      rw [hkeep]
      exact h

/-- Nor are blanks at the end. -/
theorem hasSpan_trimEnd (h : HasSpan cs) : HasSpan (Text.trimEnd cs) := by
  induction cs using List.reverseRecOn with
  | nil => exact h
  | append_singleton cs c ih =>
    by_cases hc : Text.isBlank c = true
    · have hskip : Text.trimEnd (cs ++ [c]) = Text.trimEnd cs := by
        rw [Text.trimEnd, List.reverse_concat, Text.trimStart, List.dropWhile_cons_of_pos hc]
        rfl
      rw [hskip]
      apply ih
      obtain ⟨before, source, rest, heq⟩ := h
      rcases List.eq_nil_or_concat rest with rfl | ⟨init, last, rfl⟩
      · -- nor is a closing brace
        have hlast := (List.append_inj' heq rfl).2
        injection hlast with hlast _
        rw [hlast] at hc
        exact absurd hc (by decide)
      · refine ⟨before, source, init, ?_⟩
        rw [List.concat_eq_append, ← List.cons_append, ← List.append_assoc] at heq
        exact (List.append_inj' heq rfl).1
    · rw [Text.trimEnd_concat_of_not_blank (Bool.eq_false_iff.2 hc)]
      exact h

/-- Blanks at the ends neither make a span nor hide one. -/
theorem hasSpans_iff_hasSpan : hasSpans cs = true ↔ HasSpan cs := by
  constructor
  · intro h
    by_contra hnone
    rw [hasSpans_eq_false_of_not_hasSpan hnone] at h
    cases h
  · intro h
    have htrim : HasSpan (Text.trim cs) := hasSpan_trimEnd (hasSpan_trimStart h)
    rw [hasSpans, Option.isSome_iff_ne_none]
    exact fun hnone => firstSpan?_eq_none_iff.1 hnone htrim

/-- A text with a span in it has one among its pieces. -/
theorem hasSpan_iff_mem_segments : HasSpan cs ↔ ∃ source, .span source ∈ segments cs := by
  constructor
  · intro h
    cases hf : firstSpan? cs with
    | none => exact absurd h (firstSpan?_eq_none_iff.1 hf)
    | some found =>
      obtain ⟨before, source, rest⟩ := found
      rw [segments_of_firstSpan? hf]
      exact ⟨source, List.mem_cons_of_mem _ (List.mem_cons_self ..)⟩
  · rintro ⟨source, hmem⟩
    by_contra hnone
    rw [segments_of_not_hasSpan hnone] at hmem
    split at hmem
    · cases hmem
    · cases List.mem_singleton.1 hmem

/-! ## The only way to cut a text -/

/-- **A text is cut in the only way there is.** Its segments are the one list of pieces of this
shape that is written as the text; the pieces that come back when they are written and read again
are those of this shape; and a text is taken for a template exactly if a span is among its
segments. -/
theorem segments_eq_iff (cs : List Char) :
    (∀ pieces, segments cs = pieces ↔ join pieces = cs ∧ Alternates pieces ∧ Clean pieces) ∧
    (∀ pieces, segments (join pieces) = pieces ↔ Alternates pieces ∧ Clean pieces) ∧
    (hasSpans cs = true ↔ ∃ source, .span source ∈ segments cs) := by
  have hshape : ∀ cs, Alternates (segments cs) ∧ Clean (segments cs) :=
    fun cs => ⟨alternates_segments cs, clean_segments cs⟩
  refine ⟨fun pieces => ⟨?_, ?_⟩, fun pieces => ⟨fun h => ?_, fun h => segments_join h.1 h.2⟩, ?_⟩
  · rintro rfl
    exact ⟨join_segments cs, hshape cs⟩
  · rintro ⟨rfl, ha, hc⟩
    exact segments_join ha hc
  · rw [← h]
    exact hshape (join pieces)
  · exact hasSpans_iff_hasSpan.trans hasSpan_iff_mem_segments

end Splice.Span
