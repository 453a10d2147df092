import Mathlib.Data.List.TakeWhile
import Splice.Node.Machine

/-!
# `Splice.Proofs.Numerals` — digits and the numbers they write

The scanner cuts a number off a text, the machine reads it again as an integer or a float. Here the
two meet: what the scanner cuts off are digits, or digits around one point, and both are read.

## Contents
- `readNat?_of_digits`, `readInt64?_of_digits`, `readMagnitude?_of_digits`, `readFloat?_of_point`:
  what digits read as.
- `digitsValue_toDigits`: the digits of a number have its value.
- `numeral_digits`, `numeral_point`: digits, and digits around a point, are cut off a text that does
  not go on with them.
- `Numeral`, `numeral_of_numeral_eq_ok`: how a number is cut off; `Numeral.append_eq` and
  `Numeral.shape` say what is left and what is cut off.
- `numeralKind?_eq_some`: what is an integer, and what is a float.
-/

namespace Splice

variable {c d : Char} {cs ds fs lexeme rest : List Char}

/-! ## Reading digits -/

namespace Decimal

open Scan (digitsValue)

theorem digitValue?_of_isDigit (h : c.isDigit = true) :
    digitValue? 10 c = some (c.toNat - 48) := by
  obtain ⟨hlow, hhigh⟩ := Char.isDigit_iff_toNat.1 h
  have hlow' : 48 ≤ c.toNat := hlow
  have hhigh' : c.toNat ≤ 57 := hhigh
  have hrange : ('0' ≤ c && c ≤ '9') = true := by
    simp only [Bool.and_eq_true, decide_eq_true_eq]
    exact ⟨hlow, hhigh⟩
  have hlt : c.toNat - 48 < 10 := by omega
  unfold digitValue?
  simp only [hrange, ↓reduceIte, Option.filter_some, hlt, decide_true]

theorem readNatFrom?_of_digits {n : Nat} (hd : ∀ c ∈ ds, c.isDigit = true) :
    readNatFrom? 10 n ds = some (ds.foldl (fun n d => 10 * n + (d.toNat - 48)) n) := by
  induction ds generalizing n with
  | nil => rfl
  | cons c ds ih =>
    have hc := hd c (List.mem_cons_self ..)
    have hds : ∀ c ∈ ds, c.isDigit = true := fun x hx => hd x (List.mem_cons_of_mem _ hx)
    rw [readNatFrom?, digitValue?_of_isDigit hc, Option.bind_some, ih hds, List.foldl_cons,
      Nat.mul_comm n 10]

/-- Digits read as their value. -/
theorem readNat?_of_digits (hne : ds ≠ []) (hd : ∀ c ∈ ds, c.isDigit = true) :
    readNat? 10 ds = some (digitsValue ds) := by
  unfold readNat?
  rw [if_neg (by simpa using hne)]
  exact readNatFrom?_of_digits hd

theorem splitSign_of_digit (h : c.isDigit = true) : splitSign (c :: cs) = (false, c :: cs) := by
  unfold splitSign
  split
  · next heq =>
    injection heq with hc
    rw [hc] at h
    exact absurd h (by decide)
  · next heq =>
    injection heq with hc
    rw [hc] at h
    exact absurd h (by decide)
  · rfl

/-- Digits of a value below `2 ^ 63` read as an integer. -/
theorem readInt64?_of_digits (hne : ds ≠ []) (hd : ∀ c ∈ ds, c.isDigit = true)
    (hlt : digitsValue ds < Nat.pow 2 63) :
    readInt64? 10 ds = some (Int64.ofInt (digitsValue ds)) := by
  cases ds with
  | nil => exact absurd rfl hne
  | cons c cs =>
    have hfit : Int64.minValue.toInt ≤ (digitsValue (c :: cs) : Int) ∧
        (digitsValue (c :: cs) : Int) ≤ Int64.maxValue.toInt := by
      have hmin : Int64.minValue.toInt = -9223372036854775808 := by decide
      have hmax : Int64.maxValue.toInt = 9223372036854775807 := by decide
      have hpow : Nat.pow 2 63 = 9223372036854775808 := by decide
      rw [hmin, hmax]
      omega
    unfold readInt64?
    rw [splitSign_of_digit (hd c (List.mem_cons_self ..))]
    dsimp only
    rw [readNat?_of_digits hne hd, Option.bind_some]
    exact if_pos hfit

theorem toLower_of_isDigit (h : c.isDigit = true) : c.toLower = c := by
  obtain ⟨-, hhigh⟩ := Char.isDigit_iff_toNat.1 h
  have hhigh' : c.toNat ≤ 57 := hhigh
  unfold Char.toLower
  rw [dif_neg]
  rintro ⟨hup, -⟩
  have hup' : 65 ≤ c.toNat := hup
  omega

/-- What starts with a digit is not the name of a float. -/
theorem readMagnitude?_of_digit (h : c.isDigit = true) :
    readMagnitude? (c :: cs) = readDecimal? (c :: cs) := by
  have hn : c ≠ 'n' := by
    rintro rfl
    exact absurd h (by decide)
  have hi : c ≠ 'i' := by
    rintro rfl
    exact absurd h (by decide)
  unfold readMagnitude?
  simp only [List.map_cons, toLower_of_isDigit h, List.cons.injEq, hn, hi, false_and, ↓reduceIte,
    decide_false, Bool.or_self, Bool.false_eq_true]

/-- Digits read as the float nearest to their value. -/
theorem readMagnitude?_of_digits (hne : ds ≠ []) (hd : ∀ c ∈ ds, c.isDigit = true) :
    readMagnitude? ds = some (ofDecimal (digitsValue ds) 0) := by
  have hdecimal : readDecimal? ds = some (ofDecimal (digitsValue ds) 0) := by
    unfold readDecimal?
    rw [List.takeWhile_eq_self_iff.2 hd, List.dropWhile_eq_nil_iff.2 hd]
    simp only [List.append_nil, readNat?_of_digits hne hd]
    rfl
  cases ds with
  | nil => exact absurd rfl hne
  | cons c cs => rw [readMagnitude?_of_digit (hd c (List.mem_cons_self ..)), hdecimal]

/-- Digits around a point read as the float nearest to their value, the digits behind the point
counted off. -/
theorem readFloat?_of_point (hne : ds ≠ []) (hd : ∀ c ∈ ds, c.isDigit = true)
    (hf : ∀ c ∈ fs, c.isDigit = true) :
    readFloat? (ds ++ '.' :: fs) = some (ofDecimal (digitsValue (ds ++ fs)) (0 - fs.length)) := by
  have hpoint : ('.' : Char).isDigit = false := by decide
  have htake : (ds ++ '.' :: fs).takeWhile Char.isDigit = ds := by
    rw [List.takeWhile_append_of_pos hd, List.takeWhile_cons, hpoint]
    exact List.append_nil ds
  have hdrop : (ds ++ '.' :: fs).dropWhile Char.isDigit = '.' :: fs := by
    rw [List.dropWhile_append_of_pos hd, List.dropWhile_cons, hpoint]
    rfl
  have hall : ∀ c ∈ ds ++ fs, c.isDigit = true := by
    intro c hc
    rcases List.mem_append.1 hc with hc | hc
    · exact hd c hc
    · exact hf c hc
  have hdecimal : readDecimal? (ds ++ '.' :: fs) =
      some (ofDecimal (digitsValue (ds ++ fs)) (0 - fs.length)) := by
    unfold readDecimal?
    rw [htake, hdrop]
    simp only [List.takeWhile_eq_self_iff.2 hf, List.dropWhile_eq_nil_iff.2 hf,
      readNat?_of_digits (List.append_ne_nil_of_left_ne_nil hne fs) hall]
    rfl
  cases ds with
  | nil => exact absurd rfl hne
  | cons c cs =>
    have hc := hd c (List.mem_cons_self ..)
    unfold readFloat?
    rw [List.cons_append, splitSign_of_digit hc]
    dsimp only
    rw [readMagnitude?_of_digit hc, ← List.cons_append, hdecimal]
    rfl

end Decimal

/-! ## Cutting numbers off -/

namespace Scan

/-- The digits of a number have its value. -/
theorem digitsValue_toDigits (n : Nat) : digitsValue (Nat.toDigits 10 n) = n := by
  have h := Nat.ofDigitChars_ten_toDigits (n := n)
  rw [Nat.ofDigitChars_eq_foldl] at h
  exact h

theorem numeral_cons (hc : c.isDigit = true) (hpoint : ∀ d ∈ cs.head?, d ≠ '.')
    (h : numeral cs = .ok (lexeme, rest)) : numeral (c :: cs) = .ok (c :: lexeme, rest) := by
  rw [numeral.eq_def]
  simp only [hc, ↓reduceIte]
  split
  · exact absurd rfl (hpoint '.' rfl)
  · exact absurd rfl (hpoint '.' rfl)
  · rw [h]

theorem numeral_cons_point (hc : c.isDigit = true) (hd : d.isDigit = true)
    (h : numeral cs = .ok (lexeme, rest)) :
    numeral (c :: '.' :: d :: cs) = .ok (c :: '.' :: d :: lexeme, rest) := by
  rw [numeral.eq_def]
  simp only [hc, hd, h, ↓reduceIte]

/-- No number goes on with `rest`. -/
def EndsNumber (rest : List Char) : Prop := ∀ c ∈ rest.head?, c.isDigit = false ∧ c ≠ '.'

theorem numeral_of_endsNumber (hr : EndsNumber rest) : numeral rest = .ok ([], rest) := by
  cases rest with
  | nil => rfl
  | cons c cs =>
    have hc := (hr c rfl).1
    rw [numeral.eq_def]
    simp only [hc, Bool.false_eq_true, ↓reduceIte]

theorem ne_point_of_isDigit (h : c.isDigit = true) : c ≠ '.' := by
  rintro rfl
  exact absurd h (by decide)

/-- Digits are cut off a text that does not go on with more of the number. -/
theorem numeral_digits (hd : ∀ c ∈ ds, c.isDigit = true) (hr : EndsNumber rest) :
    numeral (ds ++ rest) = .ok (ds, rest) := by
  induction ds with
  | nil => exact numeral_of_endsNumber hr
  | cons c ds ih =>
    have hc := hd c (List.mem_cons_self ..)
    have hds : ∀ c ∈ ds, c.isDigit = true := fun x hx => hd x (List.mem_cons_of_mem _ hx)
    refine numeral_cons hc ?_ (ih hds)
    intro x hx
    cases ds with
    | nil => exact (hr x hx).2
    | cons d ds =>
      rw [← Option.some.inj hx]
      exact ne_point_of_isDigit (hds d (List.mem_cons_self ..))

/-- So are digits around a point. -/
theorem numeral_point (hne : ds ≠ []) (hd : ∀ c ∈ ds, c.isDigit = true) (hne' : fs ≠ [])
    (hf : ∀ c ∈ fs, c.isDigit = true) (hr : EndsNumber rest) :
    numeral (ds ++ '.' :: fs ++ rest) = .ok (ds ++ '.' :: fs, rest) := by
  induction ds with
  | nil => exact absurd rfl hne
  | cons c ds ih =>
    have hc := hd c (List.mem_cons_self ..)
    have hds : ∀ c ∈ ds, c.isDigit = true := fun x hx => hd x (List.mem_cons_of_mem _ hx)
    cases ds with
    | nil =>
      cases fs with
      | nil => exact absurd rfl hne'
      | cons d fs =>
        have hfs : ∀ c ∈ fs, c.isDigit = true := fun x hx => hf x (List.mem_cons_of_mem _ hx)
        exact numeral_cons_point hc (hf d (List.mem_cons_self ..)) (numeral_digits hfs hr)
    | cons d ds =>
      refine numeral_cons hc ?_ (ih (List.cons_ne_nil _ _) hds)
      intro x hx
      rw [← Option.some.inj hx]
      exact ne_point_of_isDigit (hds d (List.mem_cons_self ..))

/-- Digits around a point. -/
def Pointed (lexeme : List Char) : Prop :=
  ∃ ds fs, lexeme = ds ++ '.' :: fs ∧ (ds ≠ [] ∧ ∀ c ∈ ds, c.isDigit = true) ∧
    (fs ≠ [] ∧ ∀ c ∈ fs, c.isDigit = true)

/-- How a number is cut off the front of a text: digit by digit, a point being taken together with
the digits at either side of it. -/
inductive Numeral : (cs lexeme rest : List Char) → Prop
  | stop {rest : List Char} (hrest : ∀ c ∈ rest.head?, c.isDigit = false) : Numeral rest [] rest
  | digit {c : Char} {cs lexeme rest : List Char} (hc : c.isDigit = true)
      (h : Numeral cs lexeme rest) : Numeral (c :: cs) (c :: lexeme) rest
  | point {c d : Char} {cs lexeme rest : List Char} (hc : c.isDigit = true) (hd : d.isDigit = true)
      (h : Numeral cs lexeme rest) : Numeral (c :: '.' :: d :: cs) (c :: '.' :: d :: lexeme) rest

theorem numeral_of_numeral_eq_ok (h : numeral cs = .ok (lexeme, rest)) :
    Numeral cs lexeme rest := by
  induction cs using numeral.induct generalizing lexeme rest with
  | case1 =>
    cases h
    refine .stop ?_
    intro c hc
    cases hc
  | case2 c hc d tail hd l r hr ih =>
    rw [numeral_cons_point hc hd hr] at h
    cases h
    exact .point hc hd (ih hr)
  | case3 c hc d tail hd l hr ih =>
    rw [numeral.eq_def] at h
    simp [hc, hd, hr] at h
  | case4 c hc d tail hd =>
    rw [numeral.eq_def] at h
    simp [hc, hd] at h
  | case5 c hc =>
    rw [numeral.eq_def] at h
    simp [hc] at h
  | case6 c hc tail h1 h2 l r hr ih =>
    rw [numeral.eq_def] at h
    simp only [hc, hr, ↓reduceIte, Except.ok.injEq, Prod.mk.injEq] at h
    obtain ⟨rfl, rfl⟩ := h
    exact .digit hc (ih hr)
  | case7 c hc tail h1 h2 l hr ih =>
    rw [numeral.eq_def] at h
    simp [hc, hr] at h
  | case8 c cs hc =>
    rw [numeral.eq_def] at h
    simp only [hc, Bool.false_eq_true, ↓reduceIte] at h
    cases h
    refine .stop fun d hd => ?_
    rw [← Option.some.inj hd]
    exact Bool.eq_false_iff.2 hc

namespace Numeral

/-- What is cut off and the rest are the whole text. -/
theorem append_eq (h : Numeral cs lexeme rest) : cs = lexeme ++ rest := by
  induction h with
  | stop hrest => rfl
  | digit hc h ih => rw [ih, List.cons_append]
  | point hc hd h ih =>
    rw [ih]
    rfl

theorem ne_nil (h : Numeral (c :: cs) lexeme rest) (hc : c.isDigit = true) : lexeme ≠ [] := by
  cases h with
  | stop hrest =>
    rw [hrest c rfl] at hc
    cases hc
  | digit hc h => exact List.cons_ne_nil _ _
  | point hc hd h => exact List.cons_ne_nil _ _

/-- What is cut off without a point are digits, and with one point it is digits around a point. -/
theorem shape (h : Numeral cs lexeme rest) :
    (lexeme.count '.' = 0 → ∀ c ∈ lexeme, c.isDigit = true) ∧
      (lexeme.count '.' = 1 → Pointed lexeme) := by
  -- the digit behind a point is taken with it, so the point is never the last character
  induction h with
  | stop hrest =>
    exact ⟨fun _ _ hx => absurd hx List.not_mem_nil, fun h => absurd h Nat.zero_ne_one⟩
  | digit hc h ih =>
    obtain ⟨ih0, ih1⟩ := ih
    rw [List.count_cons_of_ne (ne_point_of_isDigit hc)]
    refine ⟨fun h0 => List.forall_mem_cons.2 ⟨hc, ih0 h0⟩, fun h1 => ?_⟩
    obtain ⟨ds, fs, rfl, ⟨-, hd⟩, hf⟩ := ih1 h1
    exact ⟨_ :: ds, fs, rfl, ⟨List.cons_ne_nil _ _, List.forall_mem_cons.2 ⟨hc, hd⟩⟩, hf⟩
  | @point c d cs lexeme rest hc hd h ih =>
    have hcount : (c :: '.' :: d :: lexeme).count '.' = lexeme.count '.' + 1 := by
      rw [List.count_cons_of_ne (ne_point_of_isDigit hc), List.count_cons_self,
        List.count_cons_of_ne (ne_point_of_isDigit hd)]
    rw [hcount]
    refine ⟨fun h0 => absurd h0 (Nat.succ_ne_zero _), fun h1 => ?_⟩
    have hlexeme := ih.1 (Nat.succ.inj h1)
    refine ⟨[c], d :: lexeme, rfl, ⟨List.cons_ne_nil _ _, ?_⟩, List.cons_ne_nil _ _, ?_⟩
    · exact List.forall_mem_singleton.2 hc
    · exact List.forall_mem_cons.2 ⟨hd, hlexeme⟩

end Numeral

/-- The two kinds of numbers. -/
theorem numeralKind?_eq_some {kind : Token.Kind} (h : numeralKind? lexeme = some kind) :
    kind = .integer ∧ lexeme.count '.' = 0 ∧ digitsValue lexeme < Nat.pow 2 63 ∨
      kind = .float ∧ lexeme.count '.' = 1 := by
  unfold numeralKind? at h
  split at h
  · next h0 =>
    split at h
    · next hsmall =>
      cases h
      exact .inl ⟨rfl, h0, hsmall⟩
    · cases h
  · next h1 =>
    cases h
    exact .inr ⟨rfl, h1⟩
  · cases h

end Scan

end Splice
