import Mathlib.Data.List.Find
import Mathlib.Data.List.Infix
import Splice.Calendar.Pattern
import Splice.Proofs.Cutting

/-!
# `Splice.Proofs.Rendering` — how the pattern of an instant is read

A pattern is cut into text in brackets, the letters of fields, and single characters that stand for
themselves. Where several fields could be read, the one with the most letters is: the fields are
tried in an order in which no letters come behind others that they go on with. Brackets keep apart
what stands on their two sides, so that any text can be put between two patterns.

## Contents
- `Field.IsLongest`: the field with the most letters that start a pattern; `field?_eq_some_iff` says
  that this is the one that is found.
- `Renders`: how a pattern is read, from left to right; `renders_iff` says that it is read this way.
- `renderChars_append_bracketed`: text in brackets, between two patterns.
- `literally`: a pattern that stands for a text.
- `render_reads_longest`: all this for texts.
-/

namespace Splice.Calendar

variable {t : Instant} {c : Char} {cs text rest pattern out : List Char} {field other : Field}

/-! ## The longest field -/

/-- The letters of the field start the pattern, and no other field that does has more of them. -/
structure Field.IsLongest (field : Field) (pattern : List Char) : Prop where
  mem : field ∈ fields
  starts : field.letters <+: pattern
  longest : ∀ other ∈ fields, other.letters <+: pattern →
    other.letters.length ≤ field.letters.length

/-- No letters of a field go on with those of an earlier one. -/
theorem pairwise_fields : fields.Pairwise fun field later => ¬ field.letters <+: later.letters := by
  have hletters : (fields.map Field.letters).Pairwise fun ds es => ¬ ds <+: es := by decide
  exact List.pairwise_map.1 hletters

/-- The field that is found is the longest one. -/
theorem field?_eq_some_iff : field? pattern = some field ↔ field.IsLongest pattern := by
  have hpasses : ∀ other : Field,
      (!other.letters.isPrefixOf pattern) = true ↔ ¬ other.letters <+: pattern := by
    intro other
    rw [Bool.not_eq_true', ← Bool.not_eq_true, List.isPrefixOf_iff_prefix]
  unfold field?
  rw [List.find?_eq_some_iff_append]
  constructor
  · rintro ⟨hstarts, earlier, later, hfields, hearlier⟩
    have hstarts : field.letters <+: pattern := List.isPrefixOf_iff_prefix.1 hstarts
    refine ⟨hfields ▸ List.mem_append_right _ (List.mem_cons_self ..), hstarts, ?_⟩
    intro other hother hprefix
    rw [hfields, List.mem_append, List.mem_cons] at hother
    rcases hother with hother | rfl | hother
    · exact absurd hprefix ((hpasses other).1 (hearlier other hother))
    · exact Nat.le_refl _
    · -- were its letters more, they would go on with those of an earlier field
      have hpairwise := pairwise_fields
      rw [hfields, List.pairwise_append, List.pairwise_cons] at hpairwise
      by_contra hlt
      exact hpairwise.2.1.1 other hother
        (List.prefix_of_prefix_length_le hstarts hprefix (Nat.le_of_not_le hlt))
  · rintro ⟨hmem, hstarts, hlongest⟩
    obtain ⟨earlier, later, hfields⟩ := List.mem_iff_append.1 hmem
    refine ⟨List.isPrefixOf_iff_prefix.2 hstarts, earlier, later, hfields, ?_⟩
    intro other hother
    rw [hpasses]
    intro hprefix
    have hpairwise := pairwise_fields
    rw [hfields, List.pairwise_append] at hpairwise
    have hle : other.letters.length ≤ field.letters.length :=
      hlongest other (hfields ▸ List.mem_append_left _ hother) hprefix
    exact hpairwise.2.2 other hother field (List.mem_cons_self ..)
      (List.prefix_of_prefix_length_le hprefix hstarts hle)

theorem field?_eq_none_iff :
    field? pattern = none ↔ ∀ field ∈ fields, ¬ field.letters <+: pattern := by
  simp [field?]

/-- The letters of fields are no brackets. -/
theorem bracket_notMem_of_mem_fields (h : field ∈ fields) :
    '[' ∉ field.letters ∧ ']' ∉ field.letters := by
  have hletters : ∀ ds ∈ fields.map Field.letters, '[' ∉ ds ∧ ']' ∉ ds := by decide
  exact hletters _ (List.mem_map_of_mem h)

theorem exists_letters_eq_cons (h : field ∈ fields) : ∃ d ds, field.letters = d :: ds :=
  List.exists_cons_of_length_pos (length_pos_of_mem_fields h)

/-- What starts a text starts the part in front of a mark that it does not have. -/
theorem prefix_append_mark_iff {mark : Char} {ds : List Char} (h : mark ∉ ds) :
    ds <+: cs ++ mark :: rest ↔ ds <+: cs := by
  constructor
  · intro hds
    rcases Nat.le_total ds.length cs.length with hle | hle
    · exact List.prefix_of_prefix_length_le hds (List.prefix_append _ _) hle
    · have hcs : cs <+: ds := List.prefix_of_prefix_length_le (List.prefix_append _ _) hds hle
      obtain ⟨more, rfl⟩ := hcs
      cases more with
      | nil =>
        rw [List.append_nil]
      | cons d more =>
        rw [List.prefix_append_right_inj, List.cons_prefix_cons] at hds
        rw [hds.1] at h
        exact absurd (List.mem_append_right _ (List.mem_cons_self ..)) h
  · intro hds
    exact hds.trans (List.prefix_append _ _)

/-- No field goes on beyond an opening bracket. -/
theorem field?_append_bracket (pattern rest : List Char) :
    field? (pattern ++ '[' :: rest) = field? pattern := by
  unfold field?
  apply List.find?_congr
  intro field hfield
  rw [Bool.eq_iff_iff, List.isPrefixOf_iff_prefix, List.isPrefixOf_iff_prefix]
  exact prefix_append_mark_iff (bracket_notMem_of_mem_fields hfield).1

/-! ## Brackets -/

theorem bracketed?_eq_some_iff :
    bracketed? pattern = some (text, rest) ↔
      pattern = '[' :: text ++ ']' :: rest ∧ ']' ∉ text := by
  constructor
  · intro h
    unfold bracketed? at h
    split at h
    · next cs =>
      split at h
      · cases h
      · next close after hdrop =>
        cases h
        have hclose : close = ']' := by
          have hhead := List.head?_dropWhile_not (· != ']') cs
          rw [hdrop] at hhead
          simpa using hhead
        have hsplit := List.takeWhile_append_dropWhile (p := (· != ']')) (l := cs)
        rw [hdrop, hclose] at hsplit
        refine ⟨by rw [List.cons_append, hsplit], fun hmem => ?_⟩
        exact bne_iff_ne.1 (List.mem_takeWhile_imp (p := (· != ']')) hmem) rfl
    · cases h
  · rintro ⟨rfl, htext⟩
    obtain ⟨htake, hdrop⟩ := span_mark htext rest
    rw [List.cons_append, bracketed?, htake, hdrop]

theorem bracketed?_eq_none_iff : bracketed? (c :: cs) = none ↔ (c = '[' → ']' ∉ cs) := by
  constructor
  · rintro h rfl hmem
    obtain ⟨text, rest, rfl, htext⟩ := List.eq_append_cons_of_mem hmem
    have hsome : bracketed? ('[' :: (text ++ ']' :: rest)) = some (text, rest) :=
      bracketed?_eq_some_iff.2 ⟨rfl, htext⟩
    rw [hsome] at h
    cases h
  · intro h
    cases hbracketed : bracketed? (c :: cs) with
    | none => rfl
    | some found =>
      obtain ⟨text, rest⟩ := found
      obtain ⟨heq, -⟩ := bracketed?_eq_some_iff.1 hbracketed
      injection heq with hc hcs
      rw [hcs] at h
      exact absurd (List.mem_append_right _ (List.mem_cons_self ..)) (h hc)

/-! ## One step -/

theorem renderChars_of_bracketed (h : bracketed? pattern = some (text, rest)) :
    renderChars t pattern = text ++ renderChars t rest := by
  cases pattern with
  | nil => cases h
  | cons c cs =>
    rw [renderChars]
    split
    · next hfound =>
      rw [h] at hfound
      cases hfound
      rfl
    · next hnone =>
      rw [h] at hnone
      cases hnone

theorem renderChars_of_field (hb : bracketed? pattern = none) (hf : field? pattern = some field) :
    renderChars t pattern =
      field.write t ++ renderChars t (pattern.drop field.letters.length) := by
  cases pattern with
  | nil => cases hf
  | cons c cs =>
    rw [renderChars]
    split
    · next hfound =>
      rw [hb] at hfound
      cases hfound
    · split
      · next hfound =>
        rw [hf] at hfound
        cases hfound
        rfl
      · next hnone =>
        rw [hf] at hnone
        cases hnone

theorem renderChars_of_none (hb : bracketed? (c :: cs) = none) (hf : field? (c :: cs) = none) :
    renderChars t (c :: cs) = c :: renderChars t cs := by
  rw [renderChars]
  split
  · next hfound =>
    rw [hb] at hfound
    cases hfound
  · split
    · next hfound =>
      rw [hf] at hfound
      cases hfound
    · rfl

/-! ## From left to right -/

/-- How a pattern is read, from left to right: text in brackets stands for itself, the letters of
the longest field for what the field writes, and a character for itself if it opens no brackets that
are closed and no field starts with it. -/
inductive Renders (t : Instant) : (pattern out : List Char) → Prop
  | done : Renders t [] []
  | bracketed {text rest out : List Char} (htext : ']' ∉ text) (h : Renders t rest out) :
      Renders t ('[' :: text ++ ']' :: rest) (text ++ out)
  | field {field : Field} {rest out : List Char}
      (hfield : field.IsLongest (field.letters ++ rest)) (h : Renders t rest out) :
      Renders t (field.letters ++ rest) (field.write t ++ out)
  | copied {c : Char} {rest out : List Char} (hbracket : c = '[' → ']' ∉ rest)
      (hfield : ∀ field ∈ fields, ¬ field.letters <+: c :: rest) (h : Renders t rest out) :
      Renders t (c :: rest) (c :: out)

/-- The letters of a field are not in brackets. -/
theorem Field.IsLongest.bracketed?_eq_none (h : field.IsLongest pattern) :
    bracketed? pattern = none := by
  obtain ⟨rest, rfl⟩ := h.starts
  obtain ⟨hopen, -⟩ := bracket_notMem_of_mem_fields h.mem
  obtain ⟨d, ds, hds⟩ := exists_letters_eq_cons h.mem
  rw [hds] at hopen
  rw [hds, List.cons_append, bracketed?_eq_none_iff]
  rintro rfl
  exact absurd (List.mem_cons_self ..) hopen

/-- **Patterns are read in this way and in no other.** -/
theorem renders_iff : Renders t pattern out ↔ renderChars t pattern = out := by
  constructor
  · intro h
    induction h with
    | done => rw [renderChars]
    | bracketed htext h ih =>
      rw [renderChars_of_bracketed (bracketed?_eq_some_iff.2 ⟨rfl, htext⟩), ih]
    | field hfield h ih =>
      rw [renderChars_of_field hfield.bracketed?_eq_none (field?_eq_some_iff.2 hfield),
        List.drop_left, ih]
    | copied hbracket hfield h ih =>
      rw [renderChars_of_none (bracketed?_eq_none_iff.2 hbracket) (field?_eq_none_iff.2 hfield), ih]
  · rintro rfl
    induction pattern using renderChars.induct with
    | case1 =>
      rw [renderChars]
      exact .done
    | case2 c cs text rest hb ih =>
      rw [renderChars_of_bracketed hb]
      obtain ⟨heq, htext⟩ := bracketed?_eq_some_iff.1 hb
      rw [heq]
      exact .bracketed htext ih
    | case3 c cs hb field hf ih =>
      rw [renderChars_of_field hb hf]
      have hlongest := field?_eq_some_iff.1 hf
      obtain ⟨rest, heq⟩ := hlongest.starts
      rw [← heq] at ih hlongest ⊢
      rw [List.drop_left] at ih ⊢
      exact .field hlongest ih
    | case4 c cs hb hf ih =>
      rw [renderChars_of_none hb hf]
      exact .copied (bracketed?_eq_none_iff.1 hb) (field?_eq_none_iff.1 hf) ih

/-! ## Text in a pattern -/

/-- Text in brackets is kept as it is, and what stands in front of the brackets is read without
regard to what stands behind them. -/
theorem renderChars_append_bracketed (hpattern : '[' ∉ pattern) (htext : ']' ∉ text) :
    renderChars t (pattern ++ ('[' :: text ++ ']' :: rest)) =
      renderChars t pattern ++ (text ++ renderChars t rest) := by
  induction pattern using renderChars.induct with
  | case1 =>
    rw [List.nil_append, renderChars_of_bracketed (bracketed?_eq_some_iff.2 ⟨rfl, htext⟩),
      renderChars, List.nil_append]
  | case2 c cs inner after hb ih =>
    obtain ⟨heq, -⟩ := bracketed?_eq_some_iff.1 hb
    rw [heq] at hpattern
    exact absurd (List.mem_cons_self ..) hpattern
  | case3 c cs hb field hf ih =>
    have hle : field.letters.length ≤ (c :: cs).length := (field?_eq_some_iff.1 hf).starts.length_le
    have hf' : field? (c :: cs ++ ('[' :: text ++ ']' :: rest)) = some field :=
      (field?_append_bracket _ _).trans hf
    rw [renderChars_of_field (field?_eq_some_iff.1 hf').bracketed?_eq_none hf',
      renderChars_of_field hb hf, List.drop_append_of_le_length hle,
      ih fun hmem => hpattern (List.mem_of_mem_drop hmem), List.append_assoc]
  | case4 c cs hb hf ih =>
    have hf' : field? (c :: cs ++ ('[' :: text ++ ']' :: rest)) = none :=
      (field?_append_bracket _ _).trans hf
    have hb' : bracketed? (c :: cs ++ ('[' :: text ++ ']' :: rest)) = none := by
      rw [List.cons_append, bracketed?_eq_none_iff]
      rintro rfl
      exact absurd (List.mem_cons_self ..) hpattern
    rw [List.cons_append] at hb' hf' ⊢
    rw [renderChars_of_none hb' hf', renderChars_of_none hb hf,
      ih fun hmem => hpattern (List.mem_cons_of_mem _ hmem)]
    rfl

/-- A pattern that stands for a text: every character of it in brackets, but for closing ones. -/
def literally (text : List Char) : List Char :=
  text.flatMap fun c => if c = ']' then [c] else ['[', c, ']']

/-- It stands for the text whatever the instant is. -/
theorem renderChars_literally (t : Instant) (text : List Char) :
    renderChars t (literally text) = text := by
  induction text with
  | nil => exact renderChars.eq_1 t
  | cons c cs ih =>
    have hcons : literally (c :: cs) =
        (if c = ']' then [c] else ['[', c, ']']) ++ literally cs := List.flatMap_cons
    rw [hcons]
    by_cases hc : c = ']'
    · -- a closing bracket opens nothing, and no field starts with it
      have hfield : ∀ field ∈ fields, ¬ field.letters <+: c :: literally cs := by
        intro field hmem hprefix
        have hclose := (bracket_notMem_of_mem_fields hmem).2
        obtain ⟨d, ds, hds⟩ := exists_letters_eq_cons hmem
        rw [hds, List.cons_prefix_cons] at hprefix
        rw [hds, hprefix.1, hc] at hclose
        exact absurd (List.mem_cons_self ..) hclose
      have hbracket : bracketed? (c :: literally cs) = none := by
        rw [bracketed?_eq_none_iff, hc]
        exact fun hopen => absurd hopen (by decide)
      rw [if_pos hc, List.singleton_append,
        renderChars_of_none hbracket (field?_eq_none_iff.2 hfield), ih]
    · have hbracket : bracketed? (['[', c, ']'] ++ literally cs) = some ([c], literally cs) :=
        bracketed?_eq_some_iff.2 ⟨rfl, fun hmem => hc (List.mem_singleton.1 hmem).symm⟩
      rw [if_neg hc, renderChars_of_bracketed hbracket, ih]
      rfl

/-- **The longest letters are read, and brackets keep text as it is.** A pattern is read from left
to right, at every place in the only way that `Renders` has for it. Text in brackets is copied
between what the patterns on its two sides stand for, if there is no opening bracket in front of it
and no closing one in it. So every text is what some pattern stands for. -/
theorem render_reads_longest :
    (∀ (t : Instant) (pattern out : String),
      render t pattern = out ↔ Renders t pattern.toList out.toList) ∧
    (∀ (t : Instant) (pattern text rest : String), '[' ∉ pattern.toList → ']' ∉ text.toList →
      render t (pattern ++ "[" ++ text ++ "]" ++ rest) =
        render t pattern ++ text ++ render t rest) ∧
    ∀ text : String, ∃ pattern : String, ∀ t, render t pattern = text := by
  refine ⟨?_, ?_, ?_⟩
  · intro t pattern out
    rw [renders_iff, render, ← String.toList_inj, String.toList_ofList]
  · intro t pattern text rest hpattern htext
    have hrender :
        renderChars t (pattern.toList ++ ('[' :: text.toList ++ ']' :: rest.toList)) =
          renderChars t pattern.toList ++ (text.toList ++ renderChars t rest.toList) :=
      renderChars_append_bracketed hpattern htext
    rw [← String.toList_inj]
    simpa [render, String.toList_append] using hrender
  · intro text
    refine ⟨String.ofList (literally text.toList), fun t => ?_⟩
    rw [render, String.toList_ofList, renderChars_literally, String.ofList_toList]

theorem render_reads_longest_brackets :
    '[' ∉ "DDDo".toList ∧ ']' ∉ "[am".toList ∧
      render ⟨0⟩ ("DDDo" ++ "[" ++ "[am" ++ "]" ++ "]MMMMM") = "011st[am]January1" := by
  have hpattern : '[' ∉ "DDDo".toList := by decide
  have htext : ']' ∉ "[am".toList := by decide
  refine ⟨hpattern, htext, ?_⟩
  rw [render_reads_longest.2.1 ⟨0⟩ "DDDo" "[am" "]MMMMM" hpattern htext]
  decide +kernel

end Splice.Calendar
