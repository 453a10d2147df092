import Mathlib.Tactic.Positivity
import Mathlib.Tactic.Ring
import Splice.Decimal.Places
import Splice.Decimal.Reading
import Splice.Proofs.Floats

/-!
# `Splice.Proofs.Nearest` — the float nearest to an integer

A float has 53 bits. An integer with more bits than that is rounded: the bits that are too many are
shifted out one by one, and of those only two facts are kept, which decide how the others are
rounded. So the value of the float nearest to an integer is the multiple nearest to it of a power of
two, and of two equally near ones the even multiple.

## Contents
- `Keeps`: what is kept of a number whose last bits are shifted out; `Keeps.shiftRightOne` is one
  bit, `keeps_shiftRight` any number of them, `Keeps.roundedMantissa` what it is rounded to.
- `exists_roundWithAccuracy`: how a number of more than 53 bits is rounded.
- `nearest`, `Fits`: the value of the nearest float, and the numbers that are their own;
  `nearest_eq_self_iff`.
- `HasValue`: the float has this value; `hasValue_ofInt`, `hasValue_ofDecimal`, `HasValue.neg`.
- `HasValue.truncate?_eq`, `HasValue.floor?_eq`, `HasValue.ceil?_eq`, `HasValue.whole?_eq`,
  `places_of_value`: what is read off a float with a value.
- `nearestInt`: the value of the float nearest to an integer; `nearestInt_eq_self_iff`,
  `whole?_ofInt`, `ofInt_inj`.
-/

namespace Splice.Decimal

open Float.Model (UnpackedFloat Format totalExponent)
open Float.Model.UnpackedFloat

variable {m k : Nat} {e : Int} {em : ExtendedMantissa}

/-! ## Shifting bits out -/

/-- `em` is what is kept of `m` when its last `k` bits are shifted out: the other bits, whether
those make up half a unit at least, and whether they are something else than nothing or just half a
unit. -/
structure Keeps (m k : Nat) (em : ExtendedMantissa) : Prop where
  mantissa : em.mantissa = m / 2 ^ k
  roundBit : em.roundBit = decide (2 ^ k ≤ 2 * (m % 2 ^ k))
  stickyBit : em.stickyBit = decide (m % 2 ^ k ≠ 0 ∧ 2 * (m % 2 ^ k) ≠ 2 ^ k)

theorem keeps_zero (m : Nat) : Keeps m 0 ⟨m, false, false⟩ where
  mantissa := by simp
  roundBit := by simp [Nat.mod_one]
  stickyBit := by simp [Nat.mod_one]

/-- One more bit is shifted out. -/
theorem Keeps.shiftRightOne (h : Keeps m k em) : Keeps m (k + 1) em.shiftRightOne := by
  have hpos : 0 < 2 ^ k := by positivity
  have hlt : m % 2 ^ k < 2 ^ k := Nat.mod_lt _ hpos
  have hpow : 2 ^ (k + 1) = 2 * 2 ^ k := by rw [pow_succ, Nat.mul_comm]
  have hdiv : m / 2 ^ (k + 1) = m / 2 ^ k / 2 := by rw [pow_succ, Nat.div_div_eq_div_mul]
  -- the last of the bits that are left joins those that are shifted out, as the first of them
  have hmod : m % 2 ^ (k + 1) = m % 2 ^ k + 2 ^ k * (m / 2 ^ k % 2) := by
    rw [pow_succ, Nat.mod_mul]
  have hbit : m / 2 ^ k % 2 = 0 ∨ m / 2 ^ k % 2 = 1 := Nat.mod_two_eq_zero_or_one _
  refine ⟨?_, ?_, ?_⟩
  · rw [hdiv, ← h.mantissa]
    rfl
  · have hround : em.shiftRightOne.roundBit = (em.mantissa % 2 != 0) := rfl
    rw [hround, h.mantissa, hmod, hpow]
    rcases hbit with hbit | hbit
    · rw [hbit, Nat.mul_zero, Nat.add_zero]
      have hhalf : ¬ 2 * 2 ^ k ≤ 2 * (m % 2 ^ k) := by omega
      simp [hhalf]
    · rw [hbit, Nat.mul_one]
      have hhalf : 2 * 2 ^ k ≤ 2 * (m % 2 ^ k + 2 ^ k) := by omega
      simp [hhalf]
  · have hsticky : em.shiftRightOne.stickyBit = (em.roundBit || em.stickyBit) := rfl
    rw [hsticky, h.roundBit, h.stickyBit, ← Bool.decide_or, hmod, hpow, decide_eq_decide]
    rcases hbit with hbit | hbit
    · rw [hbit, Nat.mul_zero, Nat.add_zero]
      omega
    · rw [hbit, Nat.mul_one]
      omega

/-- Bits are shifted out one after the other. -/
theorem keeps_shiftRight (m k : Nat) :
    Keeps m k ((⟨m, false, false⟩ : ExtendedMantissa) >>> k) := by
  induction k with
  | zero => exact keeps_zero m
  | succ k ih => exact ih.shiftRightOne

/-- What is kept is enough to round to the nearest, and half units to the even neighbour. -/
theorem Keeps.roundedMantissa (h : Keeps m k em) : em.roundedMantissa = divideToEven m (2 ^ k) := by
  obtain ⟨mantissa, roundBit, stickyBit⟩ := em
  obtain ⟨hmantissa, hround, hsticky⟩ := h
  dsimp only at hmantissa hround hsticky
  have hpos : 0 < 2 ^ k := by positivity
  unfold divideToEven
  dsimp only
  -- the two facts tell apart whether what is shifted out is below, at or above half a unit
  rcases Nat.lt_trichotomy (2 * (m % 2 ^ k)) (2 ^ k) with hlt | heq | hgt
  · rw [compare_lt_iff_lt.2 hlt]
    have hround : roundBit = false := by
      rw [hround, decide_eq_false_iff_not]
      omega
    rw [hround, hmantissa]
    cases stickyBit <;> rfl
  · rw [compare_eq_iff_eq.2 heq]
    have hround : roundBit = true := by
      rw [hround, decide_eq_true_iff]
      omega
    have hsticky : stickyBit = false := by
      rw [hsticky, decide_eq_false_iff_not]
      omega
    rw [hround, hsticky, hmantissa]
    rfl
  · rw [compare_gt_iff_gt.2 hgt]
    have hround : roundBit = true := by
      rw [hround, decide_eq_true_iff]
      omega
    have hsticky : stickyBit = true := by
      rw [hsticky, decide_eq_true_iff]
      omega
    rw [hround, hsticky, hmantissa]
    rfl

/-! ## Rounding -/

/-- The quotient of what lies below a multiple is at most the factor. -/
theorem divideToEven_le {num den c : Nat} (hden : 0 < den) (h : num ≤ c * den) :
    divideToEven num den ≤ c := by
  have hdivide : divideToEven num den ≤ num / den + 1 := by
    unfold divideToEven
    dsimp only
    split <;> omega
  rcases Nat.lt_or_eq_of_le h with hlt | heq
  · have hquotient : num / den < c := (Nat.div_lt_iff_lt_mul hden).2 hlt
    omega
  · unfold divideToEven
    rw [heq, Nat.mul_mod_left, Nat.mul_div_cancel _ hden, Nat.mul_zero, compare_lt_iff_lt.2 hden]

theorem le_divideToEven (num den : Nat) : num / den ≤ divideToEven num den := by
  unfold divideToEven
  dsimp only
  split <;> omega

/-- A multiple is divided without rest. -/
theorem divideToEven_mul {c den : Nat} (hden : 0 < den) : divideToEven (c * den) den = c := by
  apply Nat.le_antisymm (divideToEven_le hden (Nat.le_refl _))
  have hle := le_divideToEven (c * den) den
  rwa [Nat.mul_div_cancel _ hden] at hle

theorem divideToEven_mul_mul {num den c : Nat} (hc : 0 < c) :
    divideToEven (num * c) (den * c) = divideToEven num den := by
  unfold divideToEven
  have hrest : 2 * (num % den * c) = 2 * (num % den) * c := by rw [Nat.mul_assoc]
  have hcompare : compare (2 * (num % den) * c) (den * c) = compare (2 * (num % den)) den := by
    rcases Nat.lt_trichotomy (2 * (num % den)) den with hlt | heq | hgt
    · rw [compare_lt_iff_lt.2 hlt, compare_lt_iff_lt]
      exact Nat.mul_lt_mul_of_pos_right hlt hc
    · rw [compare_eq_iff_eq.2 heq, compare_eq_iff_eq, heq]
    · rw [compare_gt_iff_gt.2 hgt, compare_gt_iff_gt]
      exact Nat.mul_lt_mul_of_pos_right hgt hc
  rw [Nat.mul_mod_mul_right, Nat.mul_div_mul_right _ _ hc, hrest, hcompare]

theorem targetExponent_binary64 (e : Int) :
    Format.binary64.targetExponent e = max (e - 53) (-1074) := by
  rw [Format.targetExponent]
  rfl

theorem shiftToTargetExponent_exact (hlog : m.log2 = 52 + k) (hlow : -1074 ≤ e + k) :
    shiftToTargetExponent .binary64 m e .exact =
      ((⟨m, false, false⟩ : ExtendedMantissa) >>> k, e + k) := by
  have htarget : Format.binary64.targetExponent (totalExponent m e) = e + k := by
    rw [targetExponent_binary64, totalExponent, hlog]
    omega
  have hshift : (e + k - e).toNat = k := by omega
  rw [shiftToTargetExponent, shiftToExponent, htarget, hshift]
  rfl

/-- What is left of a number when it is rounded to 53 bits has 53 bits, or one more. -/
theorem divideToEven_bounds (hlog : m.log2 = 52 + k) :
    2 ^ 52 ≤ divideToEven m (2 ^ k) ∧ divideToEven m (2 ^ k) ≤ 2 ^ 53 := by
  have hpow : 0 < 2 ^ k := by positivity
  constructor
  · have hm : m ≠ 0 := by
      rintro rfl
      rw [Nat.log2_zero] at hlog
      omega
    refine Nat.le_trans ?_ (le_divideToEven m (2 ^ k))
    rw [Nat.le_div_iff_mul_le hpow, ← pow_add, ← hlog]
    exact Nat.log2_self_le hm
  · apply divideToEven_le hpow
    have hlt := Nat.lt_log2_self (n := m)
    rw [hlog, Nat.add_right_comm] at hlt
    rw [← pow_add]
    exact hlt.le

/-- If it has one more, it is a power of two, and its last bit is zero. -/
theorem exists_carry {r : Nat} (hlow : 2 ^ 52 ≤ r) (hhigh : r ≤ 2 ^ 53) :
    ∃ j, j ≤ 1 ∧ r.log2 = 52 + j ∧ r / 2 ^ j * 2 ^ j = r ∧ (r / 2 ^ j).log2 = 52 := by
  rcases Nat.lt_or_eq_of_le hhigh with hlt | heq
  · have hlog : r.log2 = 52 := by
      rw [Nat.log2_eq_iff (by omega)]
      exact ⟨hlow, hlt⟩
    refine ⟨0, by omega, hlog, by simp, ?_⟩
    rw [pow_zero, Nat.div_one]
    exact hlog
  · have hhalf : 2 ^ 53 / 2 ^ 1 = 2 ^ 52 := by decide
    refine ⟨1, Nat.le_refl 1, ?_, ?_, ?_⟩
    · rw [heq, Nat.log2_two_pow]
    · rw [heq, hhalf, ← pow_add]
    · rw [heq, hhalf, Nat.log2_two_pow]

/-- A number of more than 53 bits loses those that are too many. Where that rounds it up to the next
power of two, one more is lost, which is zero. -/
theorem exists_roundWithAccuracy (hlog : m.log2 = 52 + k) (hlow : -1074 ≤ e + k) (s : Sign) :
    ∃ (M j : Nat) (hpos : 0 < M),
      roundWithAccuracy .binary64 s m e .exact = .finite s M (e + k + j) hpos ∧
      M.log2 = 52 ∧ M * 2 ^ j = divideToEven m (2 ^ k) ∧ j ≤ 1 := by
  obtain ⟨hlow_r, hhigh_r⟩ := divideToEven_bounds hlog
  generalize hrounded : divideToEven m (2 ^ k) = r at hlow_r hhigh_r ⊢
  obtain ⟨j, hj, hlog_r, hdvd, hlog_final⟩ := exists_carry hlow_r hhigh_r
  have hpos : 0 < r / 2 ^ j := by
    apply Nat.pos_of_ne_zero
    intro hzero
    rw [hzero, Nat.zero_mul] at hdvd
    omega
  refine ⟨r / 2 ^ j, j, hpos, ?_, hlog_final, hdvd, hj⟩
  -- the first shift is the one that rounds; the second one takes back a carry
  have hfirst := (keeps_shiftRight m k).roundedMantissa
  have hsecond := (keeps_shiftRight r j).mantissa
  rw [roundWithAccuracy, shiftToTargetExponent_exact hlog hlow]
  dsimp only
  rw [hfirst, hrounded, shiftToTargetExponent_exact hlog_r (by omega)]
  dsimp only
  rw [hsecond]
  exact dif_neg hpos.ne'

/-! ## The nearest number of 53 bits -/

/-- The unit in which floats count around `n`: one for each bit of `n` beyond 53. -/
def unit (n : Nat) : Nat := 2 ^ (n.log2 - 52)

/-- The multiple of the unit nearest to `n`, of two equally near ones the even one. -/
def nearest (n : Nat) : Nat := divideToEven n (unit n) * unit n

/-- The number has at most 53 bits from its first to its last one. -/
def Fits (n : Nat) : Prop := ∃ m k, n = m * 2 ^ k ∧ m < 2 ^ 53

variable {n : Nat}

theorem unit_pos (n : Nat) : 0 < unit n := Nat.two_pow_pos _

/-- Numbers that fit are their own nearest, and no others are. -/
theorem nearest_eq_self_iff : nearest n = n ↔ Fits n := by
  constructor
  · intro h
    refine ⟨divideToEven n (unit n), n.log2 - 52, h.symm, ?_⟩
    have hlt : n < 2 ^ (n.log2 + 1) := Nat.lt_log2_self
    have hpow : 2 ^ (n.log2 + 1) ≤ 2 ^ 53 * unit n := by
      unfold unit
      rw [← pow_add]
      exact Nat.pow_le_pow_right (by decide) (by omega)
    have hmul : nearest n < 2 ^ 53 * unit n := by
      rw [h]
      exact Nat.lt_of_lt_of_le hlt hpow
    exact Nat.lt_of_mul_lt_mul_right hmul
  · rintro ⟨m, k, hn, hm⟩
    -- a number of 53 bits and `k` zeros is counted in units that are not greater than `2 ^ k`
    have hunit : unit n ∣ n := by
      by_cases hzero : n = 0
      · rw [hzero]
        exact Nat.dvd_zero _
      · have hlt : n < 2 ^ (53 + k) := by
          rw [hn, pow_add]
          exact Nat.mul_lt_mul_of_pos_right hm (Nat.two_pow_pos k)
        have hlog : n.log2 < 53 + k := (Nat.log2_lt hzero).2 hlt
        have hdvd : unit n ∣ 2 ^ k := Nat.pow_dvd_pow 2 (by omega)
        rw [hn] at hdvd ⊢
        exact hdvd.mul_left m
    obtain ⟨c, hc⟩ := hunit
    have hdivide : divideToEven n (unit n) = c := by
      have h := divideToEven_mul (c := c) (unit_pos n)
      rwa [Nat.mul_comm c, ← hc] at h
    rw [nearest, hdivide, Nat.mul_comm]
    exact hc.symm

/-! ## Floats with an integer value -/

theorem log2_shiftLeft {m : Nat} (hm : m ≠ 0) (k : Nat) : (m <<< k).log2 = m.log2 + k := by
  rw [Nat.shiftLeft_eq, Nat.log2_eq_iff (by positivity), Nat.add_right_comm, Nat.pow_add,
    Nat.pow_add]
  have hlow : 2 ^ m.log2 ≤ m := Nat.log2_self_le hm
  have hhigh : m < 2 ^ (m.log2 + 1) := Nat.lt_log2_self
  exact ⟨Nat.mul_le_mul_right _ hlow, Nat.mul_lt_mul_of_pos_right hhigh (by positivity)⟩

/-- The sign that a minus sign, or none, stands for. -/
def sign (negative : Bool) : Sign := if negative then .negative else .positive

/-- The float has the value `n`, with a minus sign if `negative`, and if that is not zero, it has
all its 53 bits. -/
def HasValue (x : Float) (negative : Bool) (n : Nat) : Prop :=
  (x.toModel.unpack = .zero (sign negative) ∧ n = 0) ∨
    ∃ M e hpos, x.toModel.unpack = .finite (sign negative) M e hpos ∧ M.log2 = 52 ∧
      -1074 ≤ e ∧ e ≤ 971 ∧ numerator M e = n * denominator e

variable {x : Float} {negative : Bool}

/-- Zeros that are put behind the bits of a number do not change what it is rounded to. -/
theorem numerator_of_rounded {a j M : Nat} (hn : n ≠ 0) (hlog : n.log2 + a = 52 + k)
    (hvalue : M * 2 ^ j = divideToEven (n * 2 ^ a) (2 ^ k)) (hj : j ≤ 1) :
    numerator M (-(a : Int) + k + j) = nearest n * denominator (-(a : Int) + k + j) := by
  unfold numerator denominator
  by_cases hle : a ≤ k
  · -- the bits beyond 53 are shifted out behind the zeros
    obtain ⟨u, rfl⟩ := Nat.exists_eq_add_of_le hle
    have hunit : unit n = 2 ^ u := by
      unfold unit
      congr 1
      omega
    have hnum : (-(a : Int) + (a + u : Nat) + j).toNat = j + u := by omega
    have hden : (-(-(a : Int) + (a + u : Nat) + j)).toNat = 0 := by omega
    rw [Nat.add_comm a u, pow_add, divideToEven_mul_mul (Nat.two_pow_pos a), ← hunit] at hvalue
    rw [hnum, hden, nearest, ← hvalue, hunit, Nat.pow_eq, pow_add, Nat.pow_eq, pow_zero,
      Nat.mul_one, Nat.mul_assoc]
  · -- only zeros are shifted out
    obtain ⟨d, rfl⟩ := Nat.exists_eq_add_of_le (Nat.le_of_not_le hle)
    have hfits : Fits n := ⟨n, 0, by simp, (Nat.log2_lt hn).1 (by omega)⟩
    have hnum : (-((k + d : Nat) : Int) + k + j).toNat = 0 := by omega
    have hden : (-(-((k + d : Nat) : Int) + k + j)).toNat = d - j := by omega
    have hsplit : 2 ^ d = 2 ^ (d - j) * 2 ^ j := by
      rw [← pow_add]
      congr 1
      omega
    have hcomm : n * 2 ^ (k + d) = n * 2 ^ (d - j) * 2 ^ j * 2 ^ k := by
      rw [pow_add, hsplit]
      ring
    rw [hcomm, divideToEven_mul (Nat.two_pow_pos k)] at hvalue
    rw [hnum, hden, nearest_eq_self_iff.2 hfits, Nat.pow_eq, pow_zero, Nat.mul_one, Nat.pow_eq]
    exact Nat.mul_right_cancel (Nat.two_pow_pos j) hvalue

/-- However many zeros are put behind the bits of a number first, rounding it gives the float whose
value is nearest to it. -/
theorem hasValue_of_round {a : Nat} (hn : n ≠ 0) (hlt : n < 2 ^ 64)
    (hlog : n.log2 + a = 52 + k) (ha : a ≤ 53)
    (hx : x.toModel.unpack = unpack .binary64 (pack .binary64
      (roundWithAccuracy .binary64 (sign negative) (n <<< a) (-(a : Int)) .exact))) :
    HasValue x negative (nearest n) := by
  have hlog64 : n.log2 < 64 := (Nat.log2_lt hn).2 hlt
  have hlog_a : (n <<< a).log2 = 52 + k := by rw [log2_shiftLeft hn, hlog]
  have hlow : -53 ≤ -(a : Int) := Int.neg_le_neg (Int.ofNat_le.2 ha)
  obtain ⟨M, j, hpos, hround, hM, hvalue, hj⟩ :=
    exists_roundWithAccuracy (e := -(a : Int)) hlog_a (by omega) (sign negative)
  rw [hround, unpack_pack_of_normal hpos hM (by omega) (by omega)] at hx
  rw [Nat.shiftLeft_eq] at hvalue
  exact .inr ⟨M, -(a : Int) + k + j, hpos, hx, hM, by omega, by omega,
    numerator_of_rounded hn hlog hvalue hj⟩

/-- Before a number is rounded, as many zeros are put behind it as it has bits less than 53. -/
theorem exists_round_eq (n : Nat) (s : Sign) :
    ∃ a k : Nat, n.log2 + a = 52 + k ∧ a ≤ 52 ∧
      UnpackedFloat.round .binary64 s n 0 =
        roundWithAccuracy .binary64 s (n <<< a) (-(a : Int)) .exact := by
  refine ⟨52 - n.log2, n.log2 - 52, by omega, by omega, ?_⟩
  have htarget : Format.binary64.targetExponent (totalExponent n 0) = (n.log2 : Int) - 52 := by
    rw [targetExponent_binary64, totalExponent]
    omega
  have hshift : (0 - ((n.log2 : Int) - 52)).toNat = 52 - n.log2 := by omega
  rw [UnpackedFloat.round, htarget]
  dsimp only
  rw [decreaseExponent, hshift, Int.zero_sub]

/-- The float nearest to an integer has the nearest value. -/
theorem hasValue_ofInt {i : Int} (hi : i.natAbs < 2 ^ 64) :
    HasValue (ofInt i) (decide (i < 0)) (nearest i.natAbs) := by
  by_cases hzero : i = 0
  · rw [hzero]
    exact .inl ⟨rfl, rfl⟩
  · have hn : i.natAbs ≠ 0 := Int.natAbs_ne_zero.2 hzero
    obtain ⟨a, k, hlog, ha, hround⟩ := exists_round_eq i.natAbs (sign (decide (i < 0)))
    apply hasValue_of_round hn hi hlog (Nat.le_succ_of_le ha)
    rw [← hround]
    show unpack .binary64 (pack .binary64 (UnpackedFloat.normalize .binary64 i 0 .positive)) = _
    rw [UnpackedFloat.normalize]
    rcases Int.lt_or_gt_of_ne hzero with hneg | hpos
    · have habs : (-i).toNat = i.natAbs := by omega
      rw [compare_lt_iff_lt.2 hneg, decide_eq_true hneg]
      dsimp only
      rw [habs]
      rfl
    · have habs : i.toNat = i.natAbs := by omega
      rw [compare_gt_iff_gt.2 hpos, decide_eq_false (by omega)]
      dsimp only
      rw [habs]
      rfl

/-- A number without a point is rounded once, behind 53 zeros. -/
theorem ofScientific_zero (hn : n ≠ 0) :
    UnpackedFloat.ofScientific .binary64 n 0 =
      roundWithAccuracy .binary64 .positive (n <<< 53) (-((53 : Nat) : Int)) .exact := by
  have hpow : (0 : Int) < 2 ^ Format.binary64.exponentBits := Int.pow_pos (by decide)
  have hlarge : ¬ (0 : Int) > 2 ^ Format.binary64.exponentBits := by omega
  have hsmall : ¬ (0 : Int) < -((2 ^ Format.binary64.exponentBits : Int) + n.log2) := by omega
  have hmul : ∀ (M k : Nat) (e : Int) (hM : 0 < M) (hk : 0 < k), k = 1 →
      UnpackedFloat.mul .binary64 (.finite .positive M e hM) (.finite .positive k 0 hk) =
        roundWithAccuracy .binary64 .positive M e .exact := by
    rintro M k e hM hk rfl
    show roundWithAccuracy .binary64 .positive (M * 1) (e + 0) .exact = _
    rw [Nat.mul_one, Int.add_zero]
  rw [UnpackedFloat.ofScientific, dif_neg hn, if_neg hlarge, if_neg hsmall,
    if_pos (Int.le_refl 0)]
  exact hmul _ _ _ _ _ rfl

/-- So has the float that is read from the digits of a number. -/
theorem hasValue_ofDecimal (hlt : n < 2 ^ 64) : HasValue (ofDecimal n 0) false (nearest n) := by
  by_cases hn : n = 0
  · rw [hn]
    exact .inl ⟨rfl, rfl⟩
  · have hunpack : (ofDecimal n 0).toModel.unpack =
        unpack .binary64 (pack .binary64 (UnpackedFloat.ofScientific .binary64 n 0)) := rfl
    rw [ofScientific_zero hn] at hunpack
    exact hasValue_of_round (k := n.log2 + 1) hn hlt (by omega) (by decide) hunpack

/-- The sign of a float may be changed. -/
theorem HasValue.neg (h : HasValue x negative n) : HasValue (-x) (!negative) n := by
  have hunpack : (-x).toModel.unpack =
      unpack .binary64 (pack .binary64 x.toModel.unpack.neg) := rfl
  have hsign : -sign negative = sign (!negative) := by cases negative <;> rfl
  rcases h with ⟨hx, hn⟩ | ⟨M, e, hpos, hx, hM, hlow, hhigh, hvalue⟩
  · rw [hx] at hunpack
    refine .inl ⟨hunpack.trans ?_, hn⟩
    cases negative <;> rfl
  · rw [hx] at hunpack
    refine .inr ⟨M, e, hpos, hunpack.trans ?_, hM, hlow, hhigh, hvalue⟩
    rw [← hsign]
    exact unpack_pack_of_normal hpos hM hlow hhigh (-sign negative)

/-! ## What is read off a float with a value -/

theorem denominator_pos (e : Int) : 0 < denominator e := Nat.two_pow_pos _

theorem numerator_eq_zero_iff : numerator m e = 0 ↔ m = 0 := by
  unfold numerator
  rw [Nat.mul_eq_zero]
  constructor
  · rintro (hm | hpow)
    · exact hm
    · exact absurd hpow (Nat.two_pow_pos _).ne'
  · exact .inl

/-- The fraction that a float stands for is its value. -/
theorem HasValue.exists_shape (h : HasValue x negative n) :
    ∃ m e, shape x = .finite negative m e ∧ numerator m e = n * denominator e := by
  unfold shape
  rcases h with ⟨hx, rfl⟩ | ⟨M, e, hpos, hx, -, -, -, hvalue⟩
  · refine ⟨0, 0, ?_, rfl⟩
    rw [hx]
    cases negative <;> rfl
  · refine ⟨M, e, ?_, hvalue⟩
    rw [hx]
    cases negative <;> rfl

theorem truncated_of_value (h : numerator m e = n * denominator e) :
    truncated m e = n ∧ isWhole m e = true := by
  unfold truncated isWhole
  rw [h, Nat.mul_div_cancel _ (denominator_pos e), Nat.mul_mod_left]
  exact ⟨rfl, rfl⟩

theorem HasValue.truncate?_eq (h : HasValue x negative n) :
    truncate? x = some (signed negative n) := by
  obtain ⟨m, e, hshape, hvalue⟩ := h.exists_shape
  unfold truncate?
  rw [hshape]
  dsimp only
  rw [(truncated_of_value hvalue).1]

/-- There is nothing to round. -/
theorem HasValue.floor?_eq (h : HasValue x negative n) : floor? x = some (signed negative n) := by
  obtain ⟨m, e, hshape, hvalue⟩ := h.exists_shape
  obtain ⟨htruncated, hwhole⟩ := truncated_of_value hvalue
  unfold floor?
  rw [hshape]
  simp [htruncated, hwhole]

theorem HasValue.ceil?_eq (h : HasValue x negative n) : ceil? x = some (signed negative n) := by
  obtain ⟨m, e, hshape, hvalue⟩ := h.exists_shape
  obtain ⟨htruncated, hwhole⟩ := truncated_of_value hvalue
  unfold ceil?
  rw [hshape]
  simp [htruncated, hwhole]

theorem HasValue.whole?_eq (h : HasValue x negative n) :
    whole? x = some (signed negative n) := by
  obtain ⟨m, e, hshape, hvalue⟩ := h.exists_shape
  obtain ⟨htruncated, hwhole⟩ := truncated_of_value hvalue
  unfold whole?
  rw [hshape]
  simp [htruncated, hwhole]

theorem places_of_value (h : numerator m e = n * denominator e) :
    places 0 m e = Places.ofScaled n 0 := by
  have hone : numerator m e * Nat.pow 10 0 = n * denominator e := by
    rw [h]
    exact Nat.mul_one _
  unfold places
  rw [hone, divideToEven_mul (denominator_pos e)]

/-! ## The value of the float nearest to an integer -/

variable {i : Int}

/-- The value of the float nearest to an integer. -/
def nearestInt (i : Int) : Int := signed (decide (i < 0)) (nearest i.natAbs)

theorem signed_natAbs (i : Int) : signed (decide (i < 0)) i.natAbs = i := by
  unfold signed
  by_cases hneg : i < 0
  · rw [if_pos (decide_eq_true hneg)]
    omega
  · rw [if_neg (by simpa using hneg)]
    omega

theorem natAbs_signed (negative : Bool) (n : Nat) : (signed negative n).natAbs = n := by
  unfold signed
  cases negative <;> simp

theorem nearestInt_eq_self_iff : nearestInt i = i ↔ Fits i.natAbs := by
  rw [← nearest_eq_self_iff]
  unfold nearestInt
  constructor
  · intro h
    have habs := congrArg Int.natAbs h
    rwa [natAbs_signed] at habs
  · intro h
    rw [h]
    exact signed_natAbs i

/-- With one bit too many, the last one is lost. -/
example : nearestInt (-9007199254740993) = -9007199254740992 := by decide +kernel

/-- The value of the float nearest to an integer is the integer nearest to it that is the value of a
float. -/
theorem whole?_ofInt (hi : i.natAbs < 2 ^ 64) : whole? (ofInt i) = some (nearestInt i) :=
  (hasValue_ofInt hi).whole?_eq

/-- Two integers of up to 53 bits have equal floats only if they are the same. -/
theorem ofInt_inj {j : Int} (hi : i.natAbs < 2 ^ 53) (hj : j.natAbs < 2 ^ 53)
    (h : (ofInt i == ofInt j) = true) : i = j := by
  have hself : ∀ k : Int, k.natAbs < 2 ^ 53 → whole? (ofInt k) = some k := by
    intro k hk
    have hfits : Fits k.natAbs := ⟨k.natAbs, 0, by simp, hk⟩
    rw [whole?_ofInt (by omega), nearestInt_eq_self_iff.2 hfits]
  have hwhole := whole?_eq_of_beq h
  rw [hself i hi, hself j hj] at hwhole
  exact Option.some.inj hwhole

end Splice.Decimal
