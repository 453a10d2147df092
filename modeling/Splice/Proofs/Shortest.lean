import Mathlib.Algebra.Order.Field.Power
import Mathlib.Algebra.Order.Ring.Rat
import Mathlib.Tactic.Linarith
import Mathlib.Tactic.Ring
import Splice.Decimal.Shortest
import Splice.Proofs.Cutting
import Splice.Proofs.Floats

/-!
# `Splice.Proofs.Shortest` — the shortest digits tell floats apart

The digits chosen for a float stand for a number that rounds to it. Of the numbers of digits that
are tried, seventeen always do: the decimals with so many digits stand closer together than the
interval of the numbers that round to the float is wide. The intervals of two floats have no number
in common. So floats with the same digits are the same.

## Contents
- `binaryValue`, `scaledValue`, `Digits.value`: what a significand and its exponent, a decimal and
  the digits of one stand for; `compares_comparePowers` and `value_ofScaled` say so of the code.
- `RoundsTo`: the numbers that round to a float; `readsBack_iff` says that they are those which read
  back.
- `Canonical`, `canonical_of_shape`: the significands and exponents of floats.
- `RoundsTo.unique`: no number rounds to two floats.
- `exists_withPlaces?`: seventeen digits are enough.
- `shortest_roundsTo`, `shortest_inj`: the chosen digits round to the float, and determine it.
- `shape_injective`: a float is determined by its sign, significand and exponent.
-/

namespace Splice.Decimal

variable {m m' c num den : Nat} {e e' p q : Int} {x y : ℚ}

/-! ## Powers of two and of ten -/

/-- The number `m · 2 ^ e`. -/
def binaryValue (m : Nat) (e : Int) : ℚ := m * 2 ^ e

/-- The number `c · 10 ^ -p`. -/
def scaledValue (c : Nat) (p : Int) : ℚ := c * 10 ^ (-p)

/-- A power whose exponent is cut off at zero is short of what the negative exponent takes away. -/
theorem pow_toNat {b : ℚ} (hb : b ≠ 0) (e : Int) : b ^ e.toNat = b ^ e * b ^ (-e).toNat := by
  rw [← zpow_natCast, ← zpow_natCast, ← zpow_add₀ hb]
  congr 1
  omega

theorem denominator_cast_pos (e : Int) : (0 : ℚ) < denominator e :=
  Nat.cast_pos.2 (Nat.two_pow_pos _)

theorem numerator_cast (m : Nat) (e : Int) :
    (numerator m e : ℚ) = binaryValue m e * denominator e := by
  have hpow : (2 : ℚ) ^ e.toNat = 2 ^ e * 2 ^ (-e).toNat := pow_toNat two_ne_zero e
  unfold numerator denominator binaryValue
  push_cast [Nat.pow_eq]
  rw [hpow, mul_assoc]

/-- Numbers with the same power of two compare as their significands do. -/
theorem binaryValue_le_iff : binaryValue m e ≤ binaryValue m' e ↔ m ≤ m' := by
  have hpow : (0 : ℚ) < 2 ^ e := by positivity
  unfold binaryValue
  rw [mul_le_mul_iff_left₀ hpow, Nat.cast_le]

theorem binaryValue_inj : binaryValue m e = binaryValue m' e ↔ m = m' := by
  rw [le_antisymm_iff, binaryValue_le_iff, binaryValue_le_iff, Nat.le_antisymm_iff]

/-- A larger exponent is a larger significand at a smaller one. -/
theorem binaryValue_add (m : Nat) (e : Int) (k : Nat) :
    binaryValue m (e + k) = binaryValue (m * 2 ^ k) e := by
  unfold binaryValue
  rw [zpow_add₀ two_ne_zero, zpow_natCast]
  push_cast
  ring

/-- A decimal and a float are compared as the numbers that they are. -/
theorem compares_comparePowers (c : Nat) (p : Int) (x : Nat) (q : Int) :
    (comparePowers c p x q).Compares (scaledValue c p) (binaryValue x q) := by
  have hpow : (10 : ℚ) ^ (-p).toNat = 10 ^ (-p) * 10 ^ p.toNat := by
    have h := pow_toNat (b := 10) (by norm_num) (-p)
    rwa [neg_neg] at h
  -- both sides in whole numbers are the numbers times this one
  let scale : ℚ := 10 ^ p.toNat * denominator q
  have hscale : 0 < scale := mul_pos (by positivity) (denominator_cast_pos q)
  let left : Nat := c * Nat.pow 10 (-p).toNat * denominator q
  let right : Nat := numerator x q * Nat.pow 10 p.toNat
  have hleft : (left : ℚ) = scaledValue c p * scale := by
    simp only [left, scale, scaledValue]
    push_cast [Nat.pow_eq]
    rw [hpow]
    ring
  have hright : (right : ℚ) = binaryValue x q * scale := by
    simp only [right, scale]
    push_cast [Nat.pow_eq]
    rw [numerator_cast]
    ring
  have hcompares : (compare left right).Compares left right := (compare_iff left right).1 rfl
  show (compare left right).Compares _ _
  cases hcompare : compare left right with
  | lt =>
    rw [hcompare] at hcompares
    have hlt : (left : ℚ) < right := Nat.cast_lt.2 hcompares
    rw [hleft, hright] at hlt
    exact lt_of_mul_lt_mul_right hlt hscale.le
  | eq =>
    rw [hcompare] at hcompares
    have heq : (left : ℚ) = right := congrArg Nat.cast hcompares
    rw [hleft, hright] at heq
    exact mul_right_cancel₀ hscale.ne' heq
  | gt =>
    rw [hcompare] at hcompares
    have hgt : (right : ℚ) < left := Nat.cast_lt.2 hcompares
    rw [hleft, hright] at hgt
    exact lt_of_mul_lt_mul_right hgt hscale.le

/-! ## The numbers that round to a float -/

/-- The lower end of the interval of numbers that round to `m · 2 ^ e`. -/
def lowerEnd (m : Nat) (e : Int) : ℚ := binaryValue (4 * m - quartersBelow m e) (e - 2)

/-- The upper end of this interval. -/
def upperEnd (m : Nat) (e : Int) : ℚ := binaryValue (4 * m + 2) (e - 2)

/-- The number rounds to `m · 2 ^ e`: it lies between the ends of the interval, or is one of them if
`m` is even. -/
structure RoundsTo (x : ℚ) (m : Nat) (e : Int) : Prop where
  above : lowerEnd m e < x ∨ m % 2 = 0 ∧ lowerEnd m e = x
  below : x < upperEnd m e ∨ m % 2 = 0 ∧ x = upperEnd m e

/-- A number lies above an end of an interval, or is an end that counts. -/
theorem above_iff {o : Ordering} (h : o.Compares x y) (counts : Bool) :
    (o == .gt || (counts && o == .eq)) = true ↔ y < x ∨ counts = true ∧ y = x := by
  cases o with
  | lt =>
    have hlt : x < y := h
    simp [hlt.le, hlt.ne']
  | eq =>
    have heq : x = y := h
    simp [heq]
  | gt =>
    have hgt : y < x := h
    simp [hgt]

theorem below_iff {o : Ordering} (h : o.Compares x y) (counts : Bool) :
    (o == .lt || (counts && o == .eq)) = true ↔ x < y ∨ counts = true ∧ x = y := by
  have hswap := above_iff h.swap counts
  cases o <;> exact hswap

/-- Decimals read back as a float if they round to it. -/
theorem readsBack_iff : readsBack m e c p = true ↔ RoundsTo (scaledValue c p) m e := by
  have habove := above_iff
    (compares_comparePowers c p (4 * m - quartersBelow m e) (e - 2)) (m % 2 == 0)
  have hbelow := below_iff (compares_comparePowers c p (4 * m + 2) (e - 2)) (m % 2 == 0)
  unfold readsBack
  dsimp only
  rw [Bool.and_eq_true, habove, hbelow, beq_iff_eq]
  exact ⟨fun h => ⟨h.1, h.2⟩, fun h => ⟨h.above, h.below⟩⟩

/-- The significands and exponents of the floats other than zero: the significand has 53 bits, or
fewer at the least exponent. -/
structure Canonical (m : Nat) (e : Int) : Prop where
  pos : 0 < m
  lt : m < 2 ^ 53
  low : -1074 ≤ e
  normal : e = -1074 ∨ 2 ^ 52 ≤ m

/-- Quarters are counted at the smaller of two exponents: a float above another one has its interval
above the interval of that one. The ends may coincide, but not for two even significands. -/
theorem exists_lowerEnd (h : Canonical m e) (h' : Canonical m' e')
    (hlt : e < e' ∨ e = e' ∧ m < m') :
    ∃ quarters, lowerEnd m' e' = binaryValue quarters (e - 2) ∧ 4 * m + 2 ≤ quarters ∧
      (4 * m + 2 = quarters → m % 2 = 0 → m' % 2 ≠ 0) := by
  rcases hlt with hexp | ⟨rfl, hm⟩
  · obtain ⟨k, hk⟩ : ∃ k : Nat, e' - 2 = e - 2 + (k + 1 : Nat) := ⟨(e' - e - 1).toNat, by omega⟩
    have hnormal : 2 ^ 52 ≤ m' := by
      rcases h'.normal with hlow | hnormal
      · have hlow' := h.low
        omega
      · exact hnormal
    -- right above a power of two the interval starts a quarter below, elsewhere two
    have hquarters : 2 ^ 54 - 1 ≤ 4 * m' - quartersBelow m' e' := by
      have hlow := h.low
      unfold quartersBelow
      split
      · omega
      · next hne =>
        have hne' : m' ≠ 2 ^ 52 := fun heq => hne ⟨heq, by omega⟩
        omega
    have hdouble : 2 * (2 ^ 54 - 1) ≤ (4 * m' - quartersBelow m' e') * 2 ^ (k + 1) := by
      have hpow : 2 ≤ 2 ^ (k + 1) := Nat.le_self_pow (Nat.succ_ne_zero k) 2
      rw [Nat.mul_comm 2]
      exact Nat.mul_le_mul hquarters hpow
    have hupper := h.lt
    refine ⟨(4 * m' - quartersBelow m' e') * 2 ^ (k + 1), ?_, by omega, by omega⟩
    rw [lowerEnd, hk, binaryValue_add]
  · refine ⟨4 * m' - quartersBelow m' e, rfl, ?_, ?_⟩
    · unfold quartersBelow
      split <;> omega
    · unfold quartersBelow
      split <;> omega

/-- Nothing rounds to a float and to a larger one as well. -/
theorem RoundsTo.not_lt (hx : RoundsTo x m e) (hx' : RoundsTo x m' e') (h : Canonical m e)
    (h' : Canonical m' e') : ¬ (e < e' ∨ e = e' ∧ m < m') := by
  intro hlt
  obtain ⟨quarters, hlower, hle, hodd⟩ := exists_lowerEnd h h' hlt
  have hends : upperEnd m e ≤ lowerEnd m' e' := by
    rw [hlower]
    exact binaryValue_le_iff.2 hle
  have hbelow : x ≤ upperEnd m e := by
    rcases hx.below with hbelow | ⟨-, hbelow⟩
    · exact hbelow.le
    · exact hbelow.le
  have habove : lowerEnd m' e' ≤ x := by
    rcases hx'.above with habove | ⟨-, habove⟩
    · exact habove.le
    · exact habove.le
  -- so the number is the end that the two intervals share
  obtain ⟨heven, -⟩ : m % 2 = 0 ∧ _ :=
    hx.below.resolve_left (not_lt_of_ge (hends.trans habove))
  obtain ⟨heven', -⟩ : m' % 2 = 0 ∧ _ :=
    hx'.above.resolve_left (not_lt_of_ge (hbelow.trans hends))
  have hshared : upperEnd m e = lowerEnd m' e' := le_antisymm hends (habove.trans hbelow)
  rw [hlower, upperEnd, binaryValue_inj] at hshared
  exact hodd hshared heven heven'

/-- **No number rounds to two floats.** -/
theorem RoundsTo.unique (hx : RoundsTo x m e) (hx' : RoundsTo x m' e') (h : Canonical m e)
    (h' : Canonical m' e') : m = m' ∧ e = e' := by
  have hle := hx.not_lt hx' h h'
  have hge := hx'.not_lt hx h' h
  omega

/-! ## Seventeen digits are enough -/

/-- A float rounds to itself. -/
theorem Canonical.between (h : Canonical m e) :
    lowerEnd m e < binaryValue m e ∧ binaryValue m e < upperEnd m e := by
  have hquarters : binaryValue m e = binaryValue (4 * m) (e - 2) := by
    have hadd := binaryValue_add m (e - 2) 2
    rw [Nat.cast_ofNat, sub_add_cancel, Nat.mul_comm] at hadd
    exact hadd
  have hpos := h.pos
  unfold lowerEnd upperEnd
  rw [hquarters, ← not_le, ← not_le, binaryValue_le_iff, binaryValue_le_iff]
  unfold quartersBelow
  refine ⟨?_, by omega⟩
  split <;> omega

/-- The interval around a float is wider than the sixteenth decimal place of the float. -/
theorem Canonical.width (h : Canonical m e) :
    binaryValue m e < 10 ^ 16 * (upperEnd m e - lowerEnd m e) := by
  have hpow : (0 : ℚ) < 2 ^ (e - 2) := by positivity
  have hquarters : binaryValue m e = 4 * m * 2 ^ (e - 2) := by
    unfold binaryValue
    rw [zpow_sub₀ two_ne_zero]
    ring
  have hbelow : quartersBelow m e ≤ 4 * m := by
    have hpos := h.pos
    unfold quartersBelow
    split <;> omega
  have hwidth : upperEnd m e - lowerEnd m e = (2 + quartersBelow m e) * 2 ^ (e - 2) := by
    unfold upperEnd lowerEnd binaryValue
    rw [Nat.cast_sub hbelow]
    push_cast
    ring
  -- three quarters of a unit are enough for a significand of `2 ^ 52`, and a unit for all others
  have hcount : 4 * m < 10 ^ 16 * (2 + quartersBelow m e) := by
    have hlt := h.lt
    unfold quartersBelow
    split
    · next hpower =>
      rw [hpower.1]
      norm_num
    · omega
  have hcast : (4 * m : ℚ) < 10 ^ 16 * (2 + quartersBelow m e) := by exact_mod_cast hcount
  rw [hquarters, hwidth, ← mul_assoc]
  exact mul_lt_mul_of_pos_right hcast hpow

/-- The quotient that is tried is the largest decimal that does not exceed the float. -/
theorem scaledValue_quotient (m : Nat) (e p : Int) :
    let quotient := numerator m e * Nat.pow 10 p.toNat / (denominator e * Nat.pow 10 (-p).toNat)
    scaledValue quotient p ≤ binaryValue m e ∧ binaryValue m e < scaledValue (quotient + 1) p := by
  intro quotient
  let divisor : Nat := denominator e * Nat.pow 10 (-p).toNat
  have hten : (0 : ℚ) < 10 ^ (-p) := by positivity
  have hpow : (10 : ℚ) ^ (-p).toNat * 10 ^ p = 10 ^ p.toNat := by
    rw [pow_toNat (by norm_num) p, mul_comm]
  have hdivisor : 0 < divisor := Nat.mul_pos (Nat.two_pow_pos _) (Nat.pow_pos (by decide))
  have hdividend : ((numerator m e * Nat.pow 10 p.toNat : Nat) : ℚ) =
      binaryValue m e * 10 ^ p * divisor := by
    simp only [divisor]
    push_cast [Nat.pow_eq]
    rw [numerator_cast, ← hpow]
    ring
  have hscale : ∀ c : ℚ, c * 10 ^ (-p) * 10 ^ p = c := by
    intro c
    rw [mul_assoc, ← zpow_add₀ (by norm_num), neg_add_cancel, zpow_zero, mul_one]
  have hten' : (0 : ℚ) < 10 ^ p := by positivity
  have hcast : (0 : ℚ) < divisor := Nat.cast_pos.2 hdivisor
  constructor
  · have hle : quotient * divisor ≤ numerator m e * Nat.pow 10 p.toNat := Nat.div_mul_le_self _ _
    have hle' : (quotient : ℚ) * divisor ≤ binaryValue m e * 10 ^ p * divisor := by
      rw [← hdividend]
      exact_mod_cast hle
    have hquotient : (quotient : ℚ) ≤ binaryValue m e * 10 ^ p :=
      le_of_mul_le_mul_right hle' hcast
    refine le_of_mul_le_mul_right ?_ hten'
    rw [scaledValue, hscale]
    exact hquotient
  · have hlt : numerator m e * Nat.pow 10 p.toNat < (quotient + 1) * divisor := by
      rw [Nat.mul_comm (quotient + 1)]
      exact Nat.lt_mul_div_succ _ hdivisor
    have hlt' : binaryValue m e * 10 ^ p * divisor < ((quotient + 1 : Nat) : ℚ) * divisor := by
      rw [← hdividend]
      exact_mod_cast hlt
    have hquotient : binaryValue m e * 10 ^ p < ((quotient + 1 : Nat) : ℚ) :=
      lt_of_mul_lt_mul_right hlt' hcast.le
    refine lt_of_mul_lt_mul_right ?_ hten'.le
    rw [scaledValue, hscale]
    exact hquotient

theorem scaledValue_succ (c : Nat) (p : Int) :
    scaledValue (c + 1) p = scaledValue c p + 10 ^ (-p) := by
  unfold scaledValue
  push_cast
  ring

/-- What is chosen for some number of places reads back. -/
theorem readsBack_of_withPlaces? (h : withPlaces? m e p = some c) : readsBack m e c p = true := by
  unfold withPlaces? at h
  dsimp only at h
  split at h
  · next hlow hhigh =>
    split at h
    · rw [← Option.some.inj h]
      exact hlow
    · rw [← Option.some.inj h]
      exact hhigh
  · next hlow _ =>
    rw [← Option.some.inj h]
    exact hlow
  · next _ hhigh =>
    rw [← Option.some.inj h]
    exact hhigh
  · cases h

/-- Something is chosen if decimals with so many places are close enough: one of the two next to the
float then lies in its interval. -/
theorem exists_withPlaces? (h : Canonical m e)
    (hclose : (10 : ℚ) ^ (-p) < upperEnd m e - lowerEnd m e) : ∃ c, withPlaces? m e p = some c := by
  obtain ⟨hlow, hhigh⟩ := scaledValue_quotient m e p
  obtain ⟨hlower, hupper⟩ := h.between
  unfold withPlaces?
  dsimp only
  generalize numerator m e * Nat.pow 10 p.toNat / (denominator e * Nat.pow 10 (-p).toNat) =
    quotient at hlow hhigh
  have hone : readsBack m e quotient p = true ∨ readsBack m e (quotient + 1) p = true := by
    rw [readsBack_iff, readsBack_iff]
    by_cases hinside : lowerEnd m e < scaledValue quotient p
    · exact .inl ⟨.inl hinside, .inl (hlow.trans_lt hupper)⟩
    · -- the lower one is not above the lower end, so the upper one is less than a width above that
      refine .inr ⟨.inl (hlower.trans hhigh), .inl ?_⟩
      rw [scaledValue_succ]
      linarith
  cases hfirst : readsBack m e quotient p with
  | true =>
    cases readsBack m e (quotient + 1) p with
    | true =>
      dsimp only
      split
      · exact ⟨_, rfl⟩
      · exact ⟨_, rfl⟩
    | false => exact ⟨_, rfl⟩
  | false =>
    rw [hfirst] at hone
    rw [hone.resolve_left Bool.false_ne_true]
    exact ⟨_, rfl⟩

/-- The first digit of a quotient stands at its magnitude. -/
theorem zpow_magnitude_le (hnum : 0 < num) (hden : 0 < den) :
    (10 : ℚ) ^ (magnitude num den - 1) * den ≤ num := by
  unfold magnitude digitsOf
  split
  · next hle =>
    obtain ⟨k, hk⟩ : ∃ k, (Nat.toDigits 10 (num / den)).length = k + 1 :=
      Nat.exists_eq_add_one.2 Nat.length_toDigits_pos
    have hdigits : 10 ^ k ≤ num / den := by
      cases k with
      | zero => exact Nat.div_pos hle hden
      | succ k =>
        by_contra hlt
        have hlength := (Nat.length_toDigits_le_iff (by decide) (Nat.succ_pos k)).2 (not_le.1 hlt)
        omega
    have hmul : 10 ^ k * den ≤ num := (Nat.le_div_iff_mul_le hden).1 hdigits
    rw [hk, Nat.cast_succ, add_sub_cancel_right, zpow_natCast]
    exact_mod_cast hmul
  · have hdigits : (den - 1) / num < 10 ^ (Nat.toDigits 10 ((den - 1) / num)).length :=
      (Nat.length_toDigits_le_iff (by decide) Nat.length_toDigits_pos).1 (Nat.le_refl _)
    generalize (Nat.toDigits 10 ((den - 1) / num)).length = k at hdigits
    have hmul : den ≤ num * 10 ^ k := by
      have hlt := (Nat.div_lt_iff_lt_mul hnum).1 hdigits
      rw [Nat.mul_comm]
      omega
    have hcast : (den : ℚ) ≤ num * 10 ^ k := by exact_mod_cast hmul
    have hexponent : 1 - (k : Int) - 1 = -k := by omega
    rw [hexponent, zpow_neg, zpow_natCast, inv_mul_le_iff₀ (by positivity), mul_comm]
    exact hcast

/-- With seventeen digits, decimals are close enough. -/
theorem exists_withPlaces?_seventeen (h : Canonical m e) :
    ∃ c, withPlaces? m e (17 - magnitude (numerator m e) (denominator e)) = some c := by
  have hnumerator : 0 < numerator m e := Nat.mul_pos h.pos (Nat.two_pow_pos _)
  have hdenominator : 0 < denominator e := Nat.two_pow_pos _
  have hmagnitude := zpow_magnitude_le hnumerator hdenominator
  generalize magnitude (numerator m e) (denominator e) = k at hmagnitude
  rw [numerator_cast] at hmagnitude
  have hle : (10 : ℚ) ^ (k - 1) ≤ binaryValue m e :=
    le_of_mul_le_mul_right hmagnitude (denominator_cast_pos e)
  have hplaces : (10 : ℚ) ^ 16 * 10 ^ (-(17 - k)) = 10 ^ (k - 1) := by
    rw [← zpow_natCast, ← zpow_add₀ (by norm_num)]
    congr 1
    omega
  apply exists_withPlaces? h
  have hlt : (10 : ℚ) ^ 16 * 10 ^ (-(17 - k)) < 10 ^ 16 * (upperEnd m e - lowerEnd m e) := by
    rw [hplaces]
    exact hle.trans_lt h.width
  exact lt_of_mul_lt_mul_left hlt (by positivity)

/-- If the last number of digits is enough, what the search ends with reads back. -/
theorem exists_search (k : Int) (tries count : Nat)
    (h : ∃ c, withPlaces? m e ((count + tries : Nat) - k) = some c) :
    ∃ c p, search m e k tries count = Digits.ofScaled c p ∧ readsBack m e c p = true := by
  induction tries generalizing count with
  | zero =>
    obtain ⟨c, hc⟩ := h
    refine ⟨c, count - k, ?_, readsBack_of_withPlaces? hc⟩
    rw [Nat.add_zero] at hc
    rw [search, hc]
    rfl
  | succ tries ih =>
    rw [search]
    cases hc : withPlaces? m e (count - k) with
    | some c => exact ⟨c, count - k, rfl, readsBack_of_withPlaces? hc⟩
    | none =>
      apply ih (count + 1)
      rw [Nat.add_right_comm]
      exact h

/-- **The chosen digits are those of a decimal that rounds to the float.** -/
theorem shortest_roundsTo (h : Canonical m e) :
    ∃ c p, shortest m e = Digits.ofScaled c p ∧ RoundsTo (scaledValue c p) m e := by
  obtain ⟨c, p, hsearch, hreads⟩ := exists_search (m := m) (e := e)
    (magnitude (numerator m e) (denominator e)) 16 1 (exists_withPlaces?_seventeen h)
  refine ⟨c, p, ?_, readsBack_iff.1 hreads⟩
  rw [shortest, if_neg h.pos.ne', hsearch]

/-! ## What the digits stand for -/

/-- The number that digits and the place of their point stand for. -/
def Digits.value (d : Digits) : ℚ :=
  Nat.ofDigitChars 10 d.digits 0 * 10 ^ (d.point - d.digits.length)

/-- A decimal keeps its value without the zeros at its end. -/
theorem value_ofScaled (c : Nat) (p : Int) : (Digits.ofScaled c p).value = scaledValue c p := by
  obtain ⟨k, hk⟩ := exists_replicate '0' (digitsOf c)
  have hvalue : c = 10 ^ k * Nat.ofDigitChars 10 (Digits.ofScaled c p).digits 0 := by
    have hc : Nat.ofDigitChars 10 (digitsOf c) 0 = c := Nat.ofDigitChars_ten_toDigits
    rw [hk, Nat.ofDigitChars_append, Nat.ofDigitChars_replicate_zero] at hc
    exact hc.symm
  have hpoint : (Digits.ofScaled c p).point - (Digits.ofScaled c p).digits.length = k + -p := by
    have hlength := congrArg List.length hk
    rw [List.length_append, List.length_replicate] at hlength
    simp only [Digits.ofScaled]
    omega
  unfold Digits.value scaledValue
  rw [hpoint, zpow_add₀ (by norm_num), zpow_natCast]
  conv_rhs => rw [hvalue]
  push_cast
  ring

theorem isDigit_of_mem_ofScaled {d : Char} (h : d ∈ (Digits.ofScaled c p).digits) :
    d.isDigit = true := by
  have hmem : d ∈ digitsOf c := by
    have h := List.dropWhile_subset _ (List.mem_reverse.1 h)
    exact List.mem_reverse.1 h
  exact Nat.isDigit_of_mem_toDigits (by decide) (by decide) hmem

theorem ofScaled_ne_nil (hc : c ≠ 0) : (Digits.ofScaled c p).digits ≠ [] := by
  intro hnil
  have hvalue := value_ofScaled c p
  unfold Digits.value scaledValue at hvalue
  rw [hnil, Nat.ofDigitChars_nil, Nat.cast_zero, zero_mul, eq_comm, mul_eq_zero] at hvalue
  rcases hvalue with hzero | hzero
  · exact hc (Nat.cast_eq_zero.1 hzero)
  · exact absurd hzero (by positivity)

/-! ## Floats and their digits -/

/-- The significands and exponents of all finite floats: zero has the exponent zero. -/
def IsFloat (m : Nat) (e : Int) : Prop := (m = 0 ∧ e = 0) ∨ Canonical m e

theorem RoundsTo.pos (h : RoundsTo x m e) (hm : 0 < m) : 0 < x := by
  have hlower : 0 < lowerEnd m e := by
    have hquarters : 0 < 4 * m - quartersBelow m e := by
      unfold quartersBelow
      split <;> omega
    exact mul_pos (Nat.cast_pos.2 hquarters) (by positivity)
  rcases h.above with habove | ⟨-, habove⟩
  · exact hlower.trans habove
  · exact hlower.trans_eq habove

/-- The chosen digits are digits, and there is one. -/
theorem shortest_digits (h : IsFloat m e) :
    (shortest m e).digits ≠ [] ∧ ∀ d ∈ (shortest m e).digits, d.isDigit = true := by
  rcases h with ⟨rfl, rfl⟩ | h
  · have hzero : (shortest 0 0).digits = ['0'] := rfl
    rw [hzero]
    refine ⟨List.cons_ne_nil _ _, ?_⟩
    intro d hd
    rw [List.mem_singleton.1 hd]
    rfl
  · obtain ⟨c, p, hshortest, hrounds⟩ := shortest_roundsTo h
    rw [hshortest]
    refine ⟨?_, fun d => isDigit_of_mem_ofScaled⟩
    apply ofScaled_ne_nil
    rintro rfl
    have hpos := hrounds.pos h.pos
    rw [scaledValue, Nat.cast_zero, zero_mul] at hpos
    exact lt_irrefl 0 hpos

theorem value_shortest (h : Canonical m e) : RoundsTo (shortest m e).value m e := by
  obtain ⟨c, p, hshortest, hrounds⟩ := shortest_roundsTo h
  rw [hshortest, value_ofScaled]
  exact hrounds

theorem value_shortest_zero : (shortest 0 0).value = 0 := by
  have hzero : shortest 0 0 = ⟨['0'], 1⟩ := rfl
  rw [hzero]
  simp [Digits.value, Nat.ofDigitChars_cons]

/-- **The chosen digits determine the float.** -/
theorem shortest_inj (h : IsFloat m e) (h' : IsFloat m' e')
    (heq : (shortest m e).value = (shortest m' e').value) : m = m' ∧ e = e' := by
  rcases h with ⟨rfl, rfl⟩ | h
  · rcases h' with ⟨rfl, rfl⟩ | h'
    · exact ⟨rfl, rfl⟩
    · have hpos := (value_shortest h').pos h'.pos
      rw [← heq, value_shortest_zero] at hpos
      exact absurd hpos (lt_irrefl 0)
  · rcases h' with ⟨rfl, rfl⟩ | h'
    · have hpos := (value_shortest h).pos h.pos
      rw [heq, value_shortest_zero] at hpos
      exact absurd hpos (lt_irrefl 0)
    · have hrounds := value_shortest h
      rw [heq] at hrounds
      exact hrounds.unique (value_shortest h') h h'

open Float.Model (UnpackedFloat Format)
open Float.Model.UnpackedFloat

/-- What a float is unpacked to has the significand and the exponent of one. -/
theorem canonical_of_unpack {b : BitVec Format.binary64.numBits} {s : Sign} {hm : 0 < m}
    (h : unpack .binary64 b = .finite s m e hm) : Canonical m e := by
  have hlt : (@unpackMantissa .binary64 b).toNat < 2 ^ 52 := BitVec.isLt _
  have hencodes := encodes_unpack b
  rw [h] at hencodes
  cases hencodes with
  | subnormal hsign hexponent hmantissa => exact ⟨hm, by omega, Int.le_refl _, .inl rfl⟩
  | normal hsign hleast hgreatest hexponent hmantissa =>
    have hsignificand : 2 ^ 52 + (@unpackMantissa .binary64 b).toNat = m :=
      (toNat_one_append _).symm.trans hmantissa
    have hpos : (@unpackExponent .binary64 b).toNat ≠ 0 :=
      fun h => hleast (BitVec.eq_of_toNat_eq h)
    exact ⟨hm, by omega, by omega, .inr (by omega)⟩

theorem isFloat_of_shape {x : Float} {negative : Bool} (h : shape x = .finite negative m e) :
    IsFloat m e := by
  unfold shape at h
  cases hx : x.toModel.unpack with
  | notANumber =>
    rw [hx] at h
    cases h
  | infinity s =>
    rw [hx] at h
    cases s <;> cases h
  | zero s =>
    rw [hx] at h
    cases s <;> cases h <;> exact .inl ⟨rfl, rfl⟩
  | finite s k f hk =>
    rw [hx] at h
    have hcanonical : Canonical k f := canonical_of_unpack hx
    cases s <;> cases h <;> exact .inr hcanonical

theorem shapeOf_injective : Function.Injective shapeOf := by
  intro x y h
  cases x with
  | notANumber =>
    cases y with
    | notANumber => rfl
    | infinity s => cases s <;> cases h
    | zero s => cases s <;> cases h
    | finite s k f hk => cases s <;> cases h
  | infinity s =>
    cases y with
    | notANumber => cases s <;> cases h
    | infinity s' => cases s <;> cases s' <;> cases h <;> rfl
    | zero s' => cases s <;> cases s' <;> cases h
    | finite s' k f hk => cases s <;> cases s' <;> cases h
  | zero s =>
    cases y with
    | notANumber => cases s <;> cases h
    | infinity s' => cases s <;> cases s' <;> cases h
    | zero s' => cases s <;> cases s' <;> cases h <;> rfl
    | finite s' k f hk => cases s <;> cases s' <;> cases h <;> exact absurd hk (Nat.lt_irrefl 0)
  | finite s k f hk =>
    cases y with
    | notANumber => cases s <;> cases h
    | infinity s' => cases s <;> cases s' <;> cases h
    | zero s' => cases s <;> cases s' <;> cases h <;> exact absurd hk (Nat.lt_irrefl 0)
    | finite s' k' f' hk' => cases s <;> cases s' <;> cases h <;> rfl

/-- **Floats of the same shape are the same.** -/
theorem shape_injective : Function.Injective shape := by
  intro x y h
  have hunpack : x.toModel.unpack = y.toModel.unpack := shapeOf_injective h
  have hbits := unpack_injOn x.toModel.valid y.toModel.valid hunpack
  rcases x with ⟨⟨x, hx⟩⟩
  rcases y with ⟨⟨y, hy⟩⟩
  cases UInt64.toBitVec_inj.1 hbits
  rfl

end Splice.Decimal
