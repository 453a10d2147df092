import Splice.Proofs.Cutting
import Splice.Proofs.Escapes

/-!
# `Splice.Proofs.Parentheses` — parenthesised expressions are told apart

An expression in parentheses is a word or a quoted text, or a list with a word as its head and a
space in front of each item. A word ends where a space or a parenthesis stands, a quoted text at its
closing quote, and a list at its closing parenthesis. So two expressions that are written alike are
the same, whatever follows them.

## Contents
- `Sexp`, `Sexp.write`: expressions, and how they are written.
- `Word`, `Atom`, `Sexp.Plain`: words, what stands alone, and expressions that are made of these.
- `Word.append_inj`, `Atom.append_inj`: where what stands alone ends.
- `Sexp.append_inj`: where an expression ends.
-/

namespace Splice

/-- An expression in parentheses. -/
inductive Sexp where
  /-- A word or a quoted text. -/
  | atom (text : List Char)
  /-- A head and items in parentheses. -/
  | list (head : List Char) (items : List Sexp)

namespace Sexp

mutual

/-- The characters of an expression. -/
def write : Sexp → List Char
  | .atom text => text
  | .list head items => '(' :: head ++ writeEach items ++ [')']

/-- The expressions, each after a space. -/
def writeEach : List Sexp → List Char
  | [] => []
  | item :: items => ' ' :: item.write ++ writeEach items

end

variable {text text' rest rest' : List Char}

/-! ## What stands alone -/

/-- The characters that no word has. -/
def separators : List Char := [' ', '(', ')', '"']

/-- A word: characters without a space, a parenthesis or a quote among them. -/
structure Word (text : List Char) : Prop where
  ne_nil : text ≠ []
  plain : ∀ c ∈ text, c ∉ separators

/-- A word ends here: a space or a closing parenthesis follows, or nothing does. -/
def Separated (rest : List Char) : Prop := ∀ c ∈ rest.head?, c = ' ' ∨ c = ')'

theorem separated_nil : Separated [] := by
  rintro c ⟨⟩

theorem separated_closing : Separated (')' :: rest) := by
  rintro c ⟨⟩
  exact .inr rfl

/-- What an item or the closing parenthesis of a list stands in front of. -/
theorem separated_writeEach (items : List Sexp) : Separated (writeEach items ++ ')' :: rest) := by
  cases items with
  | nil => exact separated_closing
  | cons item items =>
    rintro c ⟨⟩
    exact .inl rfl

theorem Word.takeWhile_append (h : Word text) (hr : Separated rest) :
    (text ++ rest).takeWhile (· ∉ separators) = text := by
  refine (span_append ?_ ?_).1
  · intro c hc
    exact decide_eq_true (h.plain c hc)
  · intro c hc
    rw [decide_eq_false_iff_not, not_not]
    rcases hr c hc with rfl | rfl
    · decide
    · decide

/-- A word is determined by what it stands in front of. -/
theorem Word.append_inj (h : Word text) (h' : Word text') (hr : Separated rest)
    (hr' : Separated rest') (heq : text ++ rest = text' ++ rest') :
    text = text' ∧ rest = rest' := by
  have htext : text = text' := by
    rw [← h.takeWhile_append hr, heq, h'.takeWhile_append hr']
  rw [htext] at heq
  exact ⟨htext, List.append_cancel_left heq⟩

/-- What stands alone: a word or a quoted text. -/
inductive Atom : List Char → Prop
  | word {text : List Char} (h : Word text) : Atom text
  | quoted (text : String) : Atom (Text.quote text).toList

theorem Word.head_notMem (h : Word text) : ∃ c cs, text = c :: cs ∧ c ∉ separators := by
  cases text with
  | nil => exact absurd rfl h.ne_nil
  | cons c cs => exact ⟨c, cs, rfl, h.plain c (List.mem_cons_self ..)⟩

/-- No word starts like a quoted text. -/
theorem Word.ne_quoted (h : Word text) (quoted : String) :
    text ++ rest ≠ (Text.quote quoted).toList ++ rest' := by
  obtain ⟨c, cs, rfl, hc⟩ := h.head_notMem
  intro heq
  rw [Text.quote_toList] at heq
  rw [(List.cons.inj heq).1] at hc
  exact hc (by decide)

/-- What stands alone is determined by what it stands in front of. -/
theorem Atom.append_inj (h : Atom text) (h' : Atom text') (hr : Separated rest)
    (hr' : Separated rest') (heq : text ++ rest = text' ++ rest') :
    text = text' ∧ rest = rest' := by
  cases h with
  | word h =>
    cases h' with
    | word h' => exact h.append_inj h' hr hr' heq
    | quoted quoted => exact absurd heq (h.ne_quoted quoted)
  | quoted quoted =>
    cases h' with
    | word h' => exact absurd heq.symm (h'.ne_quoted quoted)
    | quoted quoted' =>
      obtain ⟨rfl, hrest⟩ := Text.quote_inj heq
      exact ⟨rfl, hrest⟩

/-- What stands alone does not start like a list. -/
theorem Atom.ne_opening (h : Atom text) : text ++ rest ≠ '(' :: rest' := by
  intro heq
  cases h with
  | word h =>
    obtain ⟨c, cs, rfl, hc⟩ := h.head_notMem
    rw [(List.cons.inj heq).1] at hc
    exact hc (by decide)
  | quoted quoted =>
    rw [Text.quote_toList] at heq
    exact absurd (List.cons.inj heq).1 (by decide)

/-! ## Lists -/

/-- An expression whose atoms stand alone, and whose heads are words. -/
inductive Plain : Sexp → Prop
  | atom {text : List Char} (h : Atom text) : Plain (.atom text)
  | list {head : List Char} {items : List Sexp} (hhead : Word head)
      (hitems : ∀ item ∈ items, Plain item) : Plain (.list head items)

/-- Items in front of a closing parenthesis are known if each of them is. -/
theorem writeEach_inj {items items' : List Sexp}
    (hitem : ∀ item ∈ items, ∀ other : Sexp, other.Plain → ∀ rest rest', Separated rest →
      Separated rest' → item.write ++ rest = other.write ++ rest' → item = other ∧ rest = rest')
    (hitems' : ∀ item ∈ items', item.Plain)
    (heq : writeEach items ++ ')' :: rest = writeEach items' ++ ')' :: rest') :
    items = items' ∧ rest = rest' := by
  induction items generalizing items' with
  | nil =>
    cases items' with
    | nil => exact ⟨rfl, (List.cons.inj heq).2⟩
    | cons item' items' => exact absurd (List.cons.inj heq).1 (by decide)
  | cons item items ih =>
    cases items' with
    | nil => exact absurd (List.cons.inj heq).1 (by decide)
    | cons item' items' =>
      have htail : item.write ++ (writeEach items ++ ')' :: rest) =
          item'.write ++ (writeEach items' ++ ')' :: rest') := by
        rw [← List.append_assoc, ← List.append_assoc]
        exact (List.cons.inj heq).2
      obtain ⟨hfirst, hrest⟩ := hitem item (List.mem_cons_self ..) item'
        (hitems' item' (List.mem_cons_self ..)) _ _ (separated_writeEach items)
        (separated_writeEach items') htail
      obtain ⟨hitems, hrest⟩ := ih (fun item h => hitem item (List.mem_cons_of_mem _ h))
        (fun item h => hitems' item (List.mem_cons_of_mem _ h)) hrest
      exact ⟨by rw [hfirst, hitems], hrest⟩

theorem write_list_append (head : List Char) (items : List Sexp) (rest : List Char) :
    (list head items).write ++ rest = '(' :: (head ++ (writeEach items ++ ')' :: rest)) := by
  simp [write]

/-- **An expression is determined by what it stands in front of.** -/
theorem append_inj {a b : Sexp} (ha : a.Plain) (hb : b.Plain) (hr : Separated rest)
    (hr' : Separated rest') (heq : a.write ++ rest = b.write ++ rest') : a = b ∧ rest = rest' := by
  induction ha generalizing b rest rest' with
  | atom h =>
    cases hb with
    | atom h' =>
      obtain ⟨rfl, hrest⟩ := h.append_inj h' hr hr' heq
      exact ⟨rfl, hrest⟩
    | list hhead hitems =>
      rw [write_list_append] at heq
      exact absurd heq h.ne_opening
  | @list head items hhead hitems ih =>
    cases hb with
    | atom h' =>
      rw [write_list_append] at heq
      exact absurd heq.symm h'.ne_opening
    | @list head' items' hhead' hitems' =>
      rw [write_list_append, write_list_append] at heq
      -- the head ends where the items or the closing parenthesis begin
      obtain ⟨rfl, htail⟩ := hhead.append_inj hhead' (separated_writeEach items)
        (separated_writeEach items') (List.cons.inj heq).2
      obtain ⟨rfl, hrest⟩ := writeEach_inj
        (fun item hitem other hother rest rest' hr hr' heq => ih item hitem hother hr hr' heq)
        hitems' htail
      exact ⟨rfl, hrest⟩

/-- Expressions that are written alike are the same. -/
theorem write_inj {a b : Sexp} (ha : a.Plain) (hb : b.Plain) (heq : a.write = b.write) :
    a = b := by
  have happend : a.write ++ [] = b.write ++ [] := by rw [heq]
  exact (append_inj ha hb separated_nil separated_nil happend).1

end Sexp

end Splice
