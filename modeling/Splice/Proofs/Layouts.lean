import Splice.Decimal.Layout
import Splice.Proofs.Boundaries
import Splice.Proofs.Cutting
import Splice.Proofs.Formatting
import Splice.Proofs.Integers
import Splice.Proofs.Shortest

/-!
# `Splice.Proofs.Layouts` — a written float can be read

However the digits of a float are laid out, the text stands for the number that the digits stand
for: zeros and a point put them in their place, or an exponent does. So two finite floats that are
written alike are the same.

## Contents
- `writtenValue`: the number that digits around a point and an exponent stand for.
- `writtenValue_positionally`, `writtenValue_scientifically`: both layouts keep the value of digits.
- `Layout.writeChars_inj`: no two finite floats are written alike.
- `Layout.of_mem_writeChars`, `Layout.exists_mem_writeChars`: the characters of a written float.
-/

namespace Splice.Decimal

open Scan (EndsDigits)

variable {c : Char} {ds whole fraction rest : List Char} {x y : Float} {m : Nat} {e : Int}
  {negative : Bool} {layout : Layout} {d : Digits}

/-! ## Reading -/

/-- The exponent behind its letter, or 0 at the end of the text. -/
def exponentOf : List Char → Int
  | _ :: '-' :: ds => -(Nat.ofDigitChars 10 ds 0 : Int)
  | _ :: ds => Nat.ofDigitChars 10 ds 0
  | [] => 0

/-- The number that a text without a sign stands for: digits, with a point and more digits behind
them or not, and an exponent or none. -/
def writtenValue (cs : List Char) : ℚ :=
  match cs.dropWhile Char.isDigit with
  | '.' :: rest =>
    Nat.ofDigitChars 10 (cs.takeWhile Char.isDigit ++ rest.takeWhile Char.isDigit) 0 *
      10 ^ (exponentOf (rest.dropWhile Char.isDigit) - (rest.takeWhile Char.isDigit).length)
  | rest => Nat.ofDigitChars 10 (cs.takeWhile Char.isDigit) 0 * 10 ^ exponentOf rest

theorem writtenValue_point (hw : ∀ c ∈ whole, c.isDigit = true)
    (hf : ∀ c ∈ fraction, c.isDigit = true) (hr : EndsDigits rest) :
    writtenValue (whole ++ '.' :: (fraction ++ rest)) =
      Nat.ofDigitChars 10 (whole ++ fraction) 0 * 10 ^ (exponentOf rest - fraction.length) := by
  have hpoint : EndsDigits ('.' :: (fraction ++ rest)) := by
    rintro c ⟨⟩
    rfl
  obtain ⟨htake, hdrop⟩ := span_append hw hpoint
  obtain ⟨htake', hdrop'⟩ := span_append hf hr
  unfold writtenValue
  simp only [htake, hdrop, htake', hdrop']

theorem writtenValue_of_ne_point (hw : ∀ c ∈ whole, c.isDigit = true) (hr : EndsDigits rest)
    (hne : rest.head? ≠ some '.') :
    writtenValue (whole ++ rest) = Nat.ofDigitChars 10 whole 0 * 10 ^ exponentOf rest := by
  obtain ⟨htake, hdrop⟩ := span_append hw hr
  unfold writtenValue
  rw [htake, hdrop]
  split
  · exact absurd rfl hne
  · rfl

theorem exponentOf_toString (c : Char) (i : Int) : exponentOf (c :: (toString i).toList) = i := by
  rw [toList_toString]
  by_cases hneg : i < 0
  · rw [if_pos hneg]
    show -(Nat.ofDigitChars 10 (Nat.toDigits 10 i.natAbs) 0 : Int) = i
    rw [Nat.ofDigitChars_ten_toDigits]
    omega
  · rw [if_neg hneg, List.nil_append]
    have hdigits : ∀ d ∈ Nat.toDigits 10 i.natAbs, d.isDigit = true :=
      fun d hd => Nat.isDigit_of_mem_toDigits (by decide) (by decide) hd
    have hvalue : exponentOf (c :: Nat.toDigits 10 i.natAbs) =
        Nat.ofDigitChars 10 (Nat.toDigits 10 i.natAbs) 0 := by
      unfold exponentOf
      split
      · next heq =>
        injection heq with _ heq
        rw [heq] at hdigits
        exact absurd (hdigits '-' (List.mem_cons_self ..)) (by decide)
      · next heq =>
        injection heq with _ heq
        rw [heq]
      · next heq => cases heq
    rw [hvalue, Nat.ofDigitChars_ten_toDigits]
    omega

/-! ## The two layouts -/

theorem endsDigits_nil : EndsDigits [] := by
  rintro c ⟨⟩

theorem isDigit_of_mem_zeros {k : Nat} (h : c ∈ List.replicate k '0') : c.isDigit = true := by
  rw [List.eq_of_mem_replicate h]
  rfl

/-- A point and zeros in front of digits. -/
theorem writtenValue_zeros_before (hd : ∀ c ∈ ds, c.isDigit = true) (k : Nat) :
    writtenValue (['0', '.'] ++ List.replicate k '0' ++ ds) =
      Nat.ofDigitChars 10 ds 0 * 10 ^ (-k - ds.length : Int) := by
  have hwhole : ∀ c ∈ ['0'], c.isDigit = true :=
    fun c hc => isDigit_of_mem_zeros (k := 1) hc
  have hfraction : ∀ c ∈ List.replicate k '0' ++ ds, c.isDigit = true := by
    intro c hc
    rcases List.mem_append.1 hc with hc | hc
    · exact isDigit_of_mem_zeros hc
    · exact hd c hc
  have hvalue := writtenValue_point hwhole hfraction endsDigits_nil
  have hdigits : Nat.ofDigitChars 10 (['0'] ++ (List.replicate k '0' ++ ds)) 0 =
      Nat.ofDigitChars 10 ds 0 := by
    rw [← List.append_assoc]
    exact ofDigitChars_zeros_append (k + 1) ds
  have hexponent : exponentOf [] - ((List.replicate k '0' ++ ds).length : Int) =
      -k - ds.length := by
    rw [List.length_append, List.length_replicate]
    simp only [exponentOf]
    omega
  rw [List.append_nil, hdigits, hexponent] at hvalue
  exact hvalue

/-- Zeros behind digits, and a point with one more zero or nothing. -/
theorem writtenValue_zeros_behind (hd : ∀ c ∈ ds, c.isDigit = true) (k : Nat) (point : Bool) :
    writtenValue (ds ++ List.replicate k '0' ++ if point then ['.', '0'] else []) =
      Nat.ofDigitChars 10 ds 0 * 10 ^ (k : Int) := by
  have hwhole : ∀ c ∈ ds ++ List.replicate k '0', c.isDigit = true := by
    intro c hc
    rcases List.mem_append.1 hc with hc | hc
    · exact hd c hc
    · exact isDigit_of_mem_zeros hc
  have hdigits : Nat.ofDigitChars 10 (ds ++ List.replicate k '0') 0 =
      10 ^ k * Nat.ofDigitChars 10 ds 0 := by
    rw [Nat.ofDigitChars_append, Nat.ofDigitChars_replicate_zero]
  rw [zpow_natCast]
  cases point with
  | true =>
    have hvalue := writtenValue_point hwhole
      (fun c hc => isDigit_of_mem_zeros (k := 1) hc) endsDigits_nil
    have hzero : Nat.ofDigitChars 10 (ds ++ List.replicate k '0' ++ ['0']) 0 =
        10 * (10 ^ k * Nat.ofDigitChars 10 ds 0) := by
      rw [Nat.ofDigitChars_append, hdigits]
      rfl
    have hplace : exponentOf [] - ((['0'] : List Char).length : Int) = -1 := rfl
    refine hvalue.trans ?_
    show (Nat.ofDigitChars 10 (ds ++ List.replicate k '0' ++ ['0']) 0 : ℚ) *
      10 ^ (exponentOf [] - ((['0'] : List Char).length : Int)) = _
    rw [hzero, hplace, zpow_neg_one]
    push_cast
    ring
  | false =>
    have hvalue := writtenValue_of_ne_point hwhole endsDigits_nil nofun
    refine hvalue.trans ?_
    simp only [hdigits, exponentOf, zpow_zero]
    push_cast
    ring

/-- A point among digits. -/
theorem writtenValue_split (hd : ∀ c ∈ ds, c.isDigit = true) {k : Nat} (hk : k ≤ ds.length) :
    writtenValue (ds.take k ++ '.' :: ds.drop k) =
      Nat.ofDigitChars 10 ds 0 * 10 ^ (k - ds.length : Int) := by
  have hwhole : ∀ c ∈ ds.take k, c.isDigit = true := fun c hc => hd c (List.mem_of_mem_take hc)
  have hfraction : ∀ c ∈ ds.drop k, c.isDigit = true := fun c hc => hd c (List.mem_of_mem_drop hc)
  have hvalue := writtenValue_point hwhole hfraction endsDigits_nil
  have hexponent : exponentOf [] - ((ds.drop k).length : Int) = k - ds.length := by
    rw [List.length_drop]
    simp only [exponentOf]
    omega
  rw [List.take_append_drop, List.append_nil, hexponent] at hvalue
  exact hvalue

/-- The point at its place, with zeros where digits are missing, keeps the value. -/
theorem writtenValue_positionally (hd : ∀ c ∈ d.digits, c.isDigit = true) :
    writtenValue (layout.positionally d) = d.value := by
  unfold Layout.positionally Digits.value
  split
  · next hpoint =>
    have hexponent : -((-d.point).toNat : Int) - d.digits.length = d.point - d.digits.length := by
      omega
    rw [writtenValue_zeros_before hd, hexponent]
  · next hpoint =>
    split
    · next hlength =>
      have hexponent : ((d.point.toNat - d.digits.length : Nat) : Int) =
          d.point - d.digits.length := by omega
      rw [writtenValue_zeros_behind hd, hexponent]
    · next hlength =>
      have hexponent : (d.point.toNat : Int) - d.digits.length = d.point - d.digits.length := by
        omega
      rw [writtenValue_split hd (Nat.le_of_not_le hlength), hexponent]

/-- The exponent can be told from the digits in front of it: its letter is no digit and no point. -/
structure Layout.Readable (layout : Layout) : Prop where
  not_digit : layout.exponentMark.isDigit = false
  ne_point : layout.exponentMark ≠ '.'

/-- An exponent in place of the point keeps the value. -/
theorem writtenValue_scientifically (hreadable : layout.Readable) (hne : d.digits ≠ [])
    (hd : ∀ c ∈ d.digits, c.isDigit = true) :
    writtenValue (layout.scientifically d) = d.value := by
  obtain ⟨digits, point⟩ := d
  cases digits with
  | nil => exact absurd rfl hne
  | cons c fraction =>
    have hwhole : ∀ d ∈ [c], d.isDigit = true := by
      intro d hmem
      exact hd d (List.mem_cons.2 (.inl (List.mem_singleton.1 hmem)))
    have hfraction : ∀ d ∈ fraction, d.isDigit = true :=
      fun d hmem => hd d (List.mem_cons_of_mem _ hmem)
    let exponent : List Char := layout.exponentMark :: (toString (point - 1)).toList
    have hends : EndsDigits exponent := by
      rintro d ⟨⟩
      exact hreadable.not_digit
    have hexponent : exponentOf exponent = point - 1 := exponentOf_toString _ _
    cases fraction with
    | nil =>
      show writtenValue ([c] ++ (if layout.mantissaPoint then ['.', '0'] else []) ++ exponent) =
        Nat.ofDigitChars 10 [c] 0 * 10 ^ (point - 1)
      cases layout.mantissaPoint with
      | true =>
        have hvalue := writtenValue_point hwhole
          (fun c hc => isDigit_of_mem_zeros (k := 1) hc) hends
        have hzero : Nat.ofDigitChars 10 [c, '0'] 0 = 10 * Nat.ofDigitChars 10 [c] 0 := rfl
        have hplace : point - 1 - 1 = -1 + (point - 1) := by omega
        refine hvalue.trans ?_
        show (Nat.ofDigitChars 10 [c, '0'] 0 : ℚ) * 10 ^ (exponentOf exponent - 1) = _
        rw [hzero, hexponent, hplace, zpow_add₀ (by norm_num), zpow_neg_one]
        push_cast
        ring
      | false =>
        have hvalue := writtenValue_of_ne_point hwhole hends
          (fun h => hreadable.ne_point (Option.some.inj h))
        rw [hexponent] at hvalue
        exact hvalue
    | cons d fraction =>
      have hvalue := writtenValue_point hwhole hfraction hends
      have hplace : point - 1 - ((d :: fraction).length : Int) =
          point - ((c :: d :: fraction).length : Int) := by
        simp only [List.length_cons]
        omega
      rw [hexponent, hplace] at hvalue
      exact hvalue

/-! ## Floats -/

/-- The digits of a float without its sign. -/
def Layout.unsigned (layout : Layout) (d : Digits) : List Char :=
  if layout.positional d.point then layout.positionally d else layout.scientifically d

theorem Layout.writeChars_of_shape (h : shape x = .finite negative m e) :
    layout.writeChars x =
      (if negative then ['-'] else []) ++ layout.unsigned (shortest m e) := by
  rw [writeChars, h]
  rfl

theorem writtenValue_unsigned (hreadable : layout.Readable) (hne : d.digits ≠ [])
    (hd : ∀ c ∈ d.digits, c.isDigit = true) : writtenValue (layout.unsigned d) = d.value := by
  unfold Layout.unsigned
  split
  · exact writtenValue_positionally hd
  · exact writtenValue_scientifically hreadable hne hd

/-- A float starts with a digit behind its sign. -/
theorem Layout.exists_digit (layout : Layout) (h : IsFloat m e) :
    ∃ c cs, layout.unsigned (shortest m e) = c :: cs ∧ c.isDigit = true := by
  obtain ⟨hne, hd⟩ := shortest_digits h
  generalize shortest m e = d at hne hd
  obtain ⟨digits, point⟩ := d
  cases digits with
  | nil => exact absurd rfl hne
  | cons c digits =>
    have hc : c.isDigit = true := hd c (List.mem_cons_self ..)
    unfold unsigned positionally scientifically
    split
    · split
      · exact ⟨'0', _, rfl, rfl⟩
      · next hpoint =>
        have hpoint : ¬ point ≤ 0 := hpoint
        split
        · exact ⟨c, _, rfl, hc⟩
        · obtain ⟨k, hk⟩ : ∃ k, point.toNat = k + 1 := ⟨point.toNat - 1, by omega⟩
          simp only [hk, List.take_succ_cons]
          exact ⟨c, _, rfl, hc⟩
    · exact ⟨c, _, rfl, hc⟩

/-- **No two finite floats are written alike.** -/
theorem Layout.writeChars_inj (hreadable : layout.Readable) {negative' : Bool} {m' : Nat} {e' : Int}
    (hx : shape x = .finite negative m e) (hy : shape y = .finite negative' m' e')
    (h : layout.writeChars x = layout.writeChars y) : x = y := by
  obtain ⟨hne, hd⟩ := shortest_digits (isFloat_of_shape hx)
  obtain ⟨hne', hd'⟩ := shortest_digits (isFloat_of_shape hy)
  rw [writeChars_of_shape hx, writeChars_of_shape hy] at h
  -- a sign is no digit, so both floats have one or neither has
  obtain ⟨hsign, hunsigned⟩ : negative = negative' ∧
      layout.unsigned (shortest m e) = layout.unsigned (shortest m' e') := by
    obtain ⟨c, cs, hcs, hc⟩ := layout.exists_digit (isFloat_of_shape hx)
    obtain ⟨c', cs', hcs', hc'⟩ := layout.exists_digit (isFloat_of_shape hy)
    rw [hcs, hcs'] at h
    rw [hcs, hcs']
    cases negative with
    | false =>
      cases negative' with
      | false => exact ⟨rfl, h⟩
      | true =>
        rw [(List.cons.inj h).1] at hc
        cases hc
    | true =>
      cases negative' with
      | false =>
        rw [← (List.cons.inj h).1] at hc'
        cases hc'
      | true => exact ⟨rfl, (List.cons.inj h).2⟩
  have hvalue : (shortest m e).value = (shortest m' e').value := by
    rw [← writtenValue_unsigned hreadable hne hd, hunsigned,
      writtenValue_unsigned hreadable hne' hd']
  obtain ⟨rfl, rfl⟩ := shortest_inj (isFloat_of_shape hx) (isFloat_of_shape hy) hvalue
  apply shape_injective
  rw [hx, hy, hsign]

/-- The characters of a written float, apart from digits. -/
def Layout.marks (layout : Layout) : List Char := ['.', '-', layout.exponentMark]

theorem of_mem_toString {i : Int} (h : c ∈ (toString i).toList) : c.isDigit = true ∨ c = '-' := by
  rw [toList_toString] at h
  rcases List.mem_append.1 h with h | h
  · split at h
    · exact .inr (List.mem_singleton.1 h)
    · cases h
  · exact .inl (Nat.isDigit_of_mem_toDigits (by decide) (by decide) h)

theorem Layout.of_mem_positionally (hd : ∀ c ∈ d.digits, c.isDigit = true)
    (h : c ∈ layout.positionally d) : c.isDigit = true ∨ c = '.' := by
  unfold positionally at h
  split at h
  · simp only [List.cons_append, List.nil_append, List.mem_cons, List.mem_append] at h
    rcases h with rfl | rfl | h | h
    · exact .inl rfl
    · exact .inr rfl
    · exact .inl (isDigit_of_mem_zeros h)
    · exact .inl (hd c h)
  · split at h
    · rcases List.mem_append.1 h with h | h
      · rcases List.mem_append.1 h with h | h
        · exact .inl (hd c h)
        · exact .inl (isDigit_of_mem_zeros h)
      · split at h
        · rcases List.mem_pair.1 h with rfl | rfl
          · exact .inr rfl
          · exact .inl rfl
        · cases h
    · rcases List.mem_append.1 h with h | h
      · exact .inl (hd c (List.mem_of_mem_take h))
      · rcases List.mem_cons.1 h with h | h
        · exact .inr h
        · exact .inl (hd c (List.mem_of_mem_drop h))

theorem Layout.of_mem_scientifically (hd : ∀ c ∈ d.digits, c.isDigit = true)
    (h : c ∈ layout.scientifically d) : c.isDigit = true ∨ c ∈ layout.marks := by
  have hmantissa : ∀ c ∈ (if (d.digits.drop 1).isEmpty then
      (if layout.mantissaPoint then ['.', '0'] else []) else '.' :: d.digits.drop 1),
      c.isDigit = true ∨ c = '.' := by
    intro c hc
    split at hc
    · split at hc
      · rcases List.mem_pair.1 hc with rfl | rfl
        · exact .inr rfl
        · exact .inl rfl
      · cases hc
    · rcases List.mem_cons.1 hc with hc | hc
      · exact .inr hc
      · exact .inl (hd c (List.mem_of_mem_drop hc))
  unfold scientifically at h
  rcases List.mem_append.1 h with h | h
  · rcases List.mem_append.1 h with h | h
    · exact .inl (hd c (List.mem_of_mem_take h))
    · exact (hmantissa c h).imp_right fun hpoint => by simp [marks, hpoint]
  · rcases List.mem_cons.1 h with h | h
    · exact .inr (by simp [marks, h])
    · exact (of_mem_toString h).imp_right fun hminus => by simp [marks, hminus]

/-- A finite float is written with digits, a point, a minus and the letter of an exponent. -/
theorem Layout.of_mem_writeChars (hx : shape x = .finite negative m e)
    (h : c ∈ layout.writeChars x) : c.isDigit = true ∨ c ∈ layout.marks := by
  obtain ⟨-, hd⟩ := shortest_digits (isFloat_of_shape hx)
  rw [writeChars_of_shape hx, unsigned] at h
  rcases List.mem_append.1 h with h | h
  · split at h
    · exact .inr (by simp [marks, List.mem_singleton.1 h])
    · cases h
  · split at h
    · exact (of_mem_positionally hd h).imp_right fun hpoint => by simp [marks, hpoint]
    · exact of_mem_scientifically hd h

/-- If whole numbers have a point, every finite float has one or an exponent. -/
theorem Layout.exists_mem_writeChars (hx : shape x = .finite negative m e)
    (hwhole : layout.wholePoint = true) :
    '.' ∈ layout.writeChars x ∨ layout.exponentMark ∈ layout.writeChars x := by
  have hmem : '.' ∈ layout.unsigned (shortest m e) ∨
      layout.exponentMark ∈ layout.unsigned (shortest m e) := by
    unfold unsigned
    split
    · left
      unfold positionally
      rw [hwhole]
      split
      · simp
      · split <;> simp
    · right
      unfold scientifically
      simp
  rw [writeChars_of_shape hx]
  exact hmem.imp (List.mem_append_right _) (List.mem_append_right _)

end Splice.Decimal
