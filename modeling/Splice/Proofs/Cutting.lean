import Mathlib.Data.List.TakeWhile

/-!
# `Splice.Proofs.Cutting` — where a run of characters ends

Readers take the characters of some kind off the front of a text, and writers drop those of one kind
at its end. What is taken is known if something else stands behind it.

## Contents
- `span_append`: a run of characters is cut off in front of what does not go on with it.
- `span_mark`: so is a text in front of a mark that it does not have.
- `exists_replicate`: what is dropped at the end of a text.
-/

namespace Splice

variable {p : Char → Bool} {mark : Char} {cs rest : List Char}

/-- A run of characters ends where one of another kind stands, or where the text ends. -/
theorem span_append (hcs : ∀ c ∈ cs, p c = true) (hrest : ∀ c ∈ rest.head?, p c = false) :
    (cs ++ rest).takeWhile p = cs ∧ (cs ++ rest).dropWhile p = rest := by
  rw [List.takeWhile_append_of_pos hcs, List.dropWhile_append_of_pos hcs]
  cases rest with
  | nil => exact ⟨List.append_nil cs, rfl⟩
  | cons c rest =>
    have hc : p c = false := hrest c rfl
    rw [List.takeWhile_cons, List.dropWhile_cons, hc]
    exact ⟨List.append_nil cs, rfl⟩

/-- A mark that stands nowhere else in a text divides it where it stands first. -/
theorem span_mark (h : mark ∉ cs) (rest : List Char) :
    (cs ++ mark :: rest).takeWhile (· != mark) = cs ∧
      (cs ++ mark :: rest).dropWhile (· != mark) = mark :: rest := by
  apply span_append
  · intro c hc
    rw [bne_iff_ne]
    rintro rfl
    exact h hc
  · rintro c ⟨⟩
    exact bne_self_eq_false mark

/-- Only one character, any number of times, is dropped at the end of a text. -/
theorem exists_replicate (c : Char) (cs : List Char) :
    ∃ k, cs = (cs.reverse.dropWhile (· == c)).reverse ++ List.replicate k c := by
  let dropped := cs.reverse.takeWhile (· == c)
  refine ⟨dropped.length, ?_⟩
  have hdropped : dropped = List.replicate dropped.length c := by
    rw [List.eq_replicate_iff]
    refine ⟨rfl, ?_⟩
    intro d hd
    exact beq_iff_eq.1 (List.mem_takeWhile_imp (p := (· == c)) hd)
  have hsplit : dropped ++ cs.reverse.dropWhile (· == c) = cs.reverse :=
    List.takeWhile_append_dropWhile
  have hreverse := congrArg List.reverse hsplit
  rw [List.reverse_append, List.reverse_reverse, hdropped, List.reverse_replicate] at hreverse
  exact hreverse.symm

end Splice
