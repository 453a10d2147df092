import Splice.Decimal.Reading
import Splice.Proofs.Cutting
import Splice.Text.Quoted

/-!
# `Splice.Proofs.Escapes` — quoted texts can be read

Between double quotes, every character is written so that it can be read off the front of what
follows it, and no character is written with a quote in front. So the closing quote is found, and
what was quoted is known.

## Contents
- `readNat?_toDigits`: hexadecimal digits are read as the number that has them.
- `unescape?`: reads one character; `unescape?_escape` says that it reads what was written.
- `flatMap_escape_inj`, `quote_inj`: a text is determined by its quoted form, whatever follows it.
-/

namespace Splice

/-! ## Hexadecimal digits -/

namespace Decimal

theorem readNatFrom?_append (radix n : Nat) (ds rest : List Char) :
    readNatFrom? radix n (ds ++ rest) =
      (readNatFrom? radix n ds).bind fun n => readNatFrom? radix n rest := by
  induction ds generalizing n with
  | nil => rfl
  | cons c ds ih =>
    rw [List.cons_append, readNatFrom?, readNatFrom?]
    cases digitValue? radix c with
    | none => rfl
    | some d => exact ih _

theorem digitValue?_digitChar {d : Nat} (hd : d < 16) :
    digitValue? 16 d.digitChar = some d := by
  have hall : ∀ d < 16, digitValue? 16 (Nat.digitChar d) = some d := by decide
  exact hall d hd

theorem readNatFrom?_toDigits (n : Nat) : readNatFrom? 16 0 (Nat.toDigits 16 n) = some n := by
  induction n using Nat.strong_induction_on with
  | _ n ih =>
    rw [Nat.toDigits_eq_if (by decide)]
    by_cases hlt : n < 16
    · rw [if_pos hlt, readNatFrom?, digitValue?_digitChar hlt]
      exact congrArg some (Nat.zero_add n)
    · -- the last digit comes behind those of a sixteenth
      have hdigit : n % 16 < 16 := Nat.mod_lt n (by decide)
      have hn : n / 16 * 16 + n % 16 = n := Nat.div_add_mod' n 16
      rw [if_neg hlt, readNatFrom?_append, ih (n / 16) (by omega), Option.bind_some,
        readNatFrom?, digitValue?_digitChar hdigit, Option.bind_some, hn]
      rfl

theorem readNat?_toDigits (n : Nat) : readNat? 16 (Nat.toDigits 16 n) = some n := by
  have hne : (Nat.toDigits 16 n).isEmpty = false :=
    List.isEmpty_eq_false_iff.2 Nat.toDigits_ne_nil
  rw [readNat?, hne]
  exact readNatFrom?_toDigits n

/-- No brace is a digit. -/
theorem brace_notMem_toDigits (n : Nat) : '}' ∉ Nat.toDigits 16 n := by
  induction n using Nat.strong_induction_on with
  | _ n ih =>
    have hdigit : ∀ d < 16, '}' ≠ Nat.digitChar d := by decide
    rw [Nat.toDigits_eq_if (by decide)]
    by_cases hlt : n < 16
    · rw [if_pos hlt, List.mem_singleton]
      exact hdigit n hlt
    · rw [if_neg hlt, List.mem_append, List.mem_singleton, not_or]
      exact ⟨ih (n / 16) (by omega), hdigit (n % 16) (Nat.mod_lt n (by decide))⟩

end Decimal

/-! ## Escapes -/

namespace Text

variable {c : Char} {s t rest rest' : List Char}

/-- Reads one character between double quotes, and gives what follows it; there is none at the
closing quote. -/
def unescape? : List Char → Option (Char × List Char)
  | [] => none
  | '"' :: _ => none
  | '\\' :: 'n' :: rest => some ('\n', rest)
  | '\\' :: 'r' :: rest => some ('\r', rest)
  | '\\' :: 't' :: rest => some ('\t', rest)
  | '\\' :: '0' :: rest => some (Char.ofNat 0, rest)
  | '\\' :: 'u' :: '{' :: rest =>
    (Decimal.readNat? 16 (rest.takeWhile (· != '}'))).map fun n =>
      (Char.ofNat n, (rest.dropWhile (· != '}')).drop 1)
  | '\\' :: c :: rest => some (c, rest)
  | c :: rest => some (c, rest)

theorem unescape?_hexDigits (n : Nat) (rest : List Char) :
    unescape? ('\\' :: 'u' :: '{' :: (hexDigits n ++ '}' :: rest)) =
      some (Char.ofNat n, rest) := by
  have hbrace : '}' ∉ hexDigits n := Decimal.brace_notMem_toDigits n
  obtain ⟨htake, hdrop⟩ := span_mark hbrace rest
  have hread : Decimal.readNat? 16 (hexDigits n) = some n := Decimal.readNat?_toDigits n
  show (Decimal.readNat? 16 ((hexDigits n ++ '}' :: rest).takeWhile (· != '}'))).map _ = _
  rw [htake, hdrop, hread]
  rfl

/-- **A character is read as it was written**, whatever follows it. -/
theorem unescape?_escape (c : Char) (rest : List Char) :
    unescape? (escape c ++ rest) = some (c, rest) := by
  unfold escape
  by_cases hn : c = '\n'
  · rw [if_pos hn, hn]
    rfl
  by_cases hr : c = '\r'
  · rw [if_neg hn, if_pos hr, hr]
    rfl
  by_cases ht : c = '\t'
  · rw [if_neg hn, if_neg hr, if_pos ht, ht]
    rfl
  by_cases h0 : c.toNat = 0
  · have hc : c = Char.ofNat 0 := by rw [← h0, Char.ofNat_toNat]
    rw [if_neg hn, if_neg hr, if_neg ht, if_pos h0, hc]
    rfl
  rw [if_neg hn, if_neg hr, if_neg ht, if_neg h0]
  by_cases hquote : c = '"'
  · rw [if_pos hquote, hquote]
    rfl
  by_cases hbackslash : c = '\\'
  · rw [if_neg hquote, if_pos hbackslash, hbackslash]
    rfl
  rw [if_neg hquote, if_neg hbackslash]
  by_cases hplain : (isExtending c || !isPrintable c) = true
  · rw [if_pos hplain]
    have hbraces : ['\\', 'u', Char.ofNat 0x7B] ++ hexDigits c.toNat ++ [Char.ofNat 0x7D] ++ rest =
        '\\' :: 'u' :: '{' :: (hexDigits c.toNat ++ '}' :: rest) := by
      simp
    rw [hbraces, unescape?_hexDigits, Char.ofNat_toNat]
  · rw [if_neg hplain]
    show unescape? (c :: rest) = _
    unfold unescape?
    split
    all_goals simp_all

/-- Quoted characters in front of the closing quote are known, and so is what follows it. -/
theorem flatMap_escape_inj
    (h : s.flatMap escape ++ '"' :: rest = t.flatMap escape ++ '"' :: rest') :
    s = t ∧ rest = rest' := by
  have hquote : ∀ rest, unescape? ('"' :: rest) = none := fun _ => rfl
  induction s generalizing t with
  | nil =>
    cases t with
    | nil => exact ⟨rfl, (List.cons.inj h).2⟩
    | cons d t =>
      have hread := congrArg unescape? h
      rw [List.flatMap_cons, List.append_assoc, unescape?_escape] at hread
      cases hread
  | cons c s ih =>
    have hread := congrArg unescape? h
    rw [List.flatMap_cons, List.append_assoc, unescape?_escape] at hread
    cases t with
    | nil => cases hread
    | cons d t =>
      rw [List.flatMap_cons, List.append_assoc, unescape?_escape] at hread
      obtain ⟨hc, htail⟩ := Prod.mk.inj (Option.some.inj hread)
      obtain ⟨hs, hrest⟩ := ih htail
      exact ⟨by rw [hc, hs], hrest⟩

/-- **Quoted texts are told apart**, whatever follows them. -/
theorem quote_inj {text text' : String}
    (h : (quote text).toList ++ rest = (quote text').toList ++ rest') :
    text = text' ∧ rest = rest' := by
  rw [quote_toList, quote_toList] at h
  simp only [List.cons_append, List.append_assoc, List.nil_append] at h
  obtain ⟨htext, hrest⟩ := flatMap_escape_inj (List.cons.inj h).2
  exact ⟨String.toList_inj.1 htext, hrest⟩

end Text

end Splice
