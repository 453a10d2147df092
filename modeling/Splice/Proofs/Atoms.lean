import Splice.Proofs.Layouts
import Splice.Proofs.Parentheses

/-!
# `Splice.Proofs.Atoms` — what stands alone in a printed tree

Numbers, names and truth values are printed bare, and texts in quotes. The first character of each
and the marks of a float tell which of them it is; a name is never one of the two truth values.

## Contents
- `Sexp.Form`, `Sexp.form`: the forms of trees, read off what they are printed as.
- `Identifier.word`, `Decimal.word_toString`, `Decimal.word_writeChars`: names and numbers are
  words.
- `Identifier.atomForm_chars`, `Decimal.atomForm_toString`, `Decimal.atomForm_writeChars`: their
  forms.
-/

namespace Splice

/-! ## What stands alone in a printed tree -/

namespace Sexp

variable {text : List Char} {c : Char}

theorem notMem_separators (h : c.isAlphanum = true ∨ c ∈ ['_', '.', '-']) : c ∉ separators := by
  intro hmem
  simp only [separators, List.mem_cons, List.not_mem_nil, or_false] at hmem
  rcases hmem with rfl | rfl | rfl | rfl <;> revert h <;> decide

/-- Letters, digits and the marks of numbers make a word. -/
theorem word_of_chars (hne : text ≠ [])
    (h : ∀ c ∈ text, c.isAlphanum = true ∨ c ∈ ['_', '.', '-']) : Word text where
  ne_nil := hne
  plain c hc := notMem_separators (h c hc)

/-- The heads of lists and the truth values are words. -/
theorem word_of_mem {head : String}
    (h : head ∈ ["program", "call", "get", "str", "true", "false"]) : Word head.toList := by
  have hword : ∀ head : String, head.toList ≠ [] → head.toList.all Char.isAlphanum = true →
      Word head.toList :=
    fun head hne hall => word_of_chars hne fun c hc => .inl (List.all_eq_true.1 hall c hc)
  simp only [List.mem_cons, List.not_mem_nil, or_false] at h
  rcases h with rfl | rfl | rfl | rfl | rfl | rfl <;> exact hword _ (by decide) (by decide)

/-- The forms of trees, and of the expressions that they are printed as. -/
inductive Form where
  | program
  | call
  | access
  | template
  | text
  | truth
  | name
  | float
  | integer
  /-- A literal that the host supplies. -/
  | supplied
  deriving DecidableEq

/-- The form of what stands alone: a quoted text starts with its quote, a name with a letter, and
all that is left is a number, which is a float if it has a point or an exponent. -/
def atomForm (text : List Char) : Form :=
  if text.head? = some '"' then .text
  else if text = "true".toList ∨ text = "false".toList then .truth
  else if text.head?.any Char.isAlpha then .name
  else if '.' ∈ text ∨ 'e' ∈ text then .float
  else .integer

/-- The form of an expression: that of what stands alone, or what the head of a list says. -/
def form : Sexp → Form
  | .atom text => atomForm text
  | .list head _ =>
    if head = "program".toList then .program
    else if head = "call".toList then .call
    else if head = "get".toList then .access
    else .template

/-- A number starts with a digit or a minus, and with nothing else. -/
theorem atomForm_of_number (h : ∀ c ∈ text.head?, c.isDigit = true ∨ c = '-') :
    atomForm text = if '.' ∈ text ∨ 'e' ∈ text then .float else .integer := by
  have hletter : ∀ c ∈ text.head?, c.isAlpha = false ∧ c ≠ '"' := by
    intro c hc
    rcases h c hc with hdigit | rfl
    · have hrange := Scan.toNat_of_isDigit hdigit
      refine ⟨?_, ?_⟩
      · by_contra halpha
        have hletters := Scan.toNat_of_isAlpha (Bool.not_eq_false _ ▸ halpha)
        omega
      · rintro rfl
        cases hdigit
    · decide
  have hquote : text.head? ≠ some '"' := fun hhead => (hletter '"' hhead).2 rfl
  have htruth : ¬ (text = "true".toList ∨ text = "false".toList) := by
    rintro (rfl | rfl)
    · cases (hletter 't' rfl).1
    · cases (hletter 'f' rfl).1
  have hname : text.head?.any Char.isAlpha = false :=
    (Option.any_eq_false _ _).2 fun c hc => by simp [(hletter c hc).1]
  rw [atomForm, if_neg hquote, if_neg htruth, hname]
  rfl

end Sexp

/-! ### Names -/

namespace Identifier

/-- A name is a word. -/
theorem word (x : Identifier) : Sexp.Word x.chars := by
  apply Sexp.word_of_chars (List.cons_ne_nil _ _)
  intro c hc
  rcases List.mem_cons.1 hc with rfl | hc
  · have hstarts : x.first.isAlpha = true := x.first_starts
    exact .inl (by simp [Char.isAlphanum, hstarts])
  · have hcontinues : (c.isAlphanum || c == '_') = true := x.others_continue c hc
    rw [Bool.or_eq_true, beq_iff_eq] at hcontinues
    exact hcontinues.imp_right fun h => by simp [h]

/-- It starts with a letter and spells no truth value. -/
theorem atomForm_chars (x : Identifier) : Sexp.atomForm x.chars = .name := by
  have hstarts : x.first.isAlpha = true := x.first_starts
  have hquote : x.chars.head? ≠ some '"' := by
    intro hhead
    rw [Option.some.inj hhead] at hstarts
    cases hstarts
  have hspelling : ∀ word : String, x.chars = word.toList →
      word ∉ ["true", "True", "false", "False"] := by
    intro word hword
    have hnot := x.not_truth
    have hchars : x.first :: x.others = word.toList := hword
    rwa [hchars, String.ofList_toList] at hnot
  have htruth : ¬ (x.chars = "true".toList ∨ x.chars = "false".toList) := by
    rintro (h | h)
    · exact hspelling _ h (by decide)
    · exact hspelling _ h (by decide)
  have hname : x.chars.head?.any Char.isAlpha = true := hstarts
  rw [Sexp.atomForm, if_neg hquote, if_neg htruth, hname]
  rfl

end Identifier

/-! ### Numbers -/

namespace Decimal

theorem isAlphanum_of_isDigit {c : Char} (h : c.isDigit = true) : c.isAlphanum = true := by
  simp [Char.isAlphanum, h]

theorem word_toString (i : Int) : Sexp.Word (toString i).toList := by
  have hne : (toString i).toList ≠ [] := by
    rw [toList_toString]
    exact List.append_ne_nil_of_right_ne_nil _ Nat.toDigits_ne_nil
  apply Sexp.word_of_chars hne
  intro c hc
  rcases of_mem_toString hc with hdigit | rfl
  · exact .inl (isAlphanum_of_isDigit hdigit)
  · exact .inr (by decide)

/-- An integer has neither a point nor an exponent. -/
theorem atomForm_toString (i : Int) : Sexp.atomForm (toString i).toList = .integer := by
  have hhead : ∀ c ∈ (toString i).toList.head?, c.isDigit = true ∨ c = '-' :=
    fun c hc => of_mem_toString (List.mem_of_mem_head? hc)
  rw [Sexp.atomForm_of_number hhead, if_neg]
  rintro (hpoint | hmark)
  · rcases of_mem_toString hpoint with hdigit | hminus
    · cases hdigit
    · exact absurd hminus (by decide)
  · rcases of_mem_toString hmark with hdigit | hminus
    · cases hdigit
    · exact absurd hminus (by decide)

variable {x : Float} {m : Nat} {e : Int} {negative : Bool}

theorem Layout.source_readable : source.Readable := ⟨rfl, by decide⟩

/-- A float starts with a digit, or with a minus. -/
theorem head_writeChars {layout : Layout} (hx : shape x = .finite negative m e) :
    ∀ c ∈ (layout.writeChars x).head?, c.isDigit = true ∨ c = '-' := by
  obtain ⟨c, cs, hcs, hc⟩ := layout.exists_digit (isFloat_of_shape hx)
  rw [Layout.writeChars_of_shape hx, hcs]
  cases negative with
  | true =>
    rintro d ⟨⟩
    exact .inr rfl
  | false =>
    rintro d ⟨⟩
    exact .inl hc

theorem word_writeChars (hx : shape x = .finite negative m e) :
    Sexp.Word (Layout.source.writeChars x) := by
  have hne : Layout.source.writeChars x ≠ [] := by
    obtain ⟨c, cs, hcs, -⟩ := Layout.source.exists_digit (isFloat_of_shape hx)
    rw [Layout.writeChars_of_shape hx, hcs]
    exact List.append_ne_nil_of_right_ne_nil _ (List.cons_ne_nil _ _)
  apply Sexp.word_of_chars hne
  intro c hc
  rcases Layout.of_mem_writeChars hx hc with hdigit | hmark
  · exact .inl (isAlphanum_of_isDigit hdigit)
  · have hmark : c ∈ ['.', '-', 'e'] := hmark
    simp only [List.mem_cons, List.not_mem_nil, or_false] at hmark
    rcases hmark with rfl | rfl | rfl <;> decide

/-- A float has a point or an exponent. -/
theorem atomForm_writeChars (hx : shape x = .finite negative m e) :
    Sexp.atomForm (Layout.source.writeChars x) = .float := by
  rw [Sexp.atomForm_of_number (head_writeChars hx), if_pos]
  exact Layout.exists_mem_writeChars hx rfl

end Decimal

end Splice
