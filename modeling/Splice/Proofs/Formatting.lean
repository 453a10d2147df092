import Mathlib.Algebra.Order.Ring.Rat
import Mathlib.Tactic.Positivity
import Splice.Proofs.Cutting
import Splice.Proofs.Floats
import Splice.Proofs.Grouping

/-!
# `Splice.Proofs.Formatting` — a formatted number keeps its value

A number is rounded once, to the places of the pattern. What is done with its digits afterwards, at
either end and between them, does not change what they stand for: zeros are taken away or put in
front of the digits, and behind the point they are taken away at the end.

## Contents
- `decimalValue`, `Places.value`: what digits around a point stand for; `Places.value_ofScaled` says
  what a rounded number stands for.
- `padInteger_…`, `trimFraction_…`: the digits in front of the point and behind it.
- `Writes`: a number written with enough digits and no needless ones; `writes_body` says that the
  digits of a formatted number are such.
- `format_keeps_rounded`: what stands around the digits, and what they stand for.
-/

namespace Splice

/-! ## The value of digits -/

namespace Decimal

variable {n count : Nat} {ds rest whole fraction : List Char}

/-- What digits in front of a point and behind it stand for. -/
def decimalValue (whole fraction : List Char) : ℚ :=
  Nat.ofDigitChars 10 (whole ++ fraction) 0 / 10 ^ fraction.length

/-- What a number that is rounded to decimal places stands for. -/
def Places.value (places : Places) : ℚ := decimalValue places.integer places.fraction

/-- Zeros in front of all other digits do not count. -/
theorem ofDigitChars_dropZeros (ds rest : List Char) :
    Nat.ofDigitChars 10 (ds.dropWhile (· == '0') ++ rest) 0 =
      Nat.ofDigitChars 10 (ds ++ rest) 0 := by
  induction ds with
  | nil => rfl
  | cons c cs ih =>
    by_cases hc : c = '0'
    · have hzero : Nat.ofDigitChars 10 (c :: cs ++ rest) 0 =
          Nat.ofDigitChars 10 (cs ++ rest) 0 := by
        rw [hc, List.cons_append, Nat.ofDigitChars_cons]
        rfl
      have hdrop : (c :: cs).dropWhile (· == '0') = cs.dropWhile (· == '0') := by
        simp [hc]
      rw [hdrop, ih, hzero]
    · have hdrop : (c :: cs).dropWhile (· == '0') = c :: cs := by simp [hc]
      rw [hdrop]

theorem ofDigitChars_zeros_append (k : Nat) (ds : List Char) :
    Nat.ofDigitChars 10 (List.replicate k '0' ++ ds) 0 = Nat.ofDigitChars 10 ds 0 := by
  rw [Nat.ofDigitChars_append, Nat.ofDigitChars_replicate_zero, Nat.mul_zero]

/-- Nor do zeros behind the last place. -/
theorem decimalValue_append_zeros (whole fraction : List Char) (k : Nat) :
    decimalValue whole (fraction ++ List.replicate k '0') = decimalValue whole fraction := by
  have hpow : (10 : ℚ) ^ k ≠ 0 := by positivity
  unfold decimalValue
  rw [← List.append_assoc, Nat.ofDigitChars_append, Nat.ofDigitChars_replicate_zero,
    List.length_append, List.length_replicate, pow_add, Nat.cast_mul, Nat.cast_pow, mul_comm,
    Nat.cast_ofNat]
  exact mul_div_mul_right _ _ hpow

theorem Places.integer_append_fraction (n count : Nat) :
    (Places.ofScaled n count).integer ++ (Places.ofScaled n count).fraction =
      List.replicate (count + 1 - (digitsOf n).length) '0' ++ digitsOf n :=
  List.take_append_drop _ _

/-- A number that is rounded to decimal places consists of digits. -/
theorem Places.isDigit_of_mem {c : Char}
    (h : c ∈ (Places.ofScaled n count).integer ++ (Places.ofScaled n count).fraction) :
    c.isDigit = true := by
  rw [integer_append_fraction] at h
  rcases List.mem_append.1 h with h | h
  · rw [List.eq_of_mem_replicate h]
    decide
  · exact Nat.isDigit_of_mem_toDigits (by decide) (by decide) h

theorem Places.value_ofScaled (n count : Nat) :
    (Places.ofScaled n count).value = n / 10 ^ count := by
  unfold Places.value decimalValue
  rw [Places.integer_append_fraction, Places.fraction_length, ofDigitChars_zeros_append]
  unfold digitsOf
  rw [Nat.ofDigitChars_ten_toDigits]

/-- A finite float has a significand and an exponent. -/
theorem exists_shape_of_isFinite {x : Float} (h : x.isFinite = true) :
    ∃ negative m e, shape x = .finite negative m e := by
  have h : x.toModel.unpack.isFinite = true := h
  unfold shape
  cases hx : x.toModel.unpack with
  | notANumber => rw [hx] at h; cases h
  | infinity s => rw [hx] at h; cases h
  | zero s => cases s <;> exact ⟨_, _, _, rfl⟩
  | finite s m e hm => cases s <;> exact ⟨_, _, _, rfl⟩

/-- The negative floats are those with a minus sign that are not zero. -/
theorem lt_zero_iff_of_shape {x : Float} {negative : Bool} {m : Nat} {e : Int}
    (h : shape x = .finite negative m e) : x < 0 ↔ (negative && m != 0) = true := by
  rw [lt_iff_order?]
  have horder : order? x 0 = x.toModel.unpack.compare (.zero .positive) := rfl
  rw [horder]
  unfold shape at h
  cases hx : x.toModel.unpack with
  | notANumber => rw [hx] at h; cases h
  | infinity s => rw [hx] at h; cases s <;> cases h
  | zero s =>
    rw [hx] at h
    cases s <;> cases h <;> decide
  | finite s m' e' hm =>
    rw [hx] at h
    have hne : (m' != 0) = true := by simpa using hm.ne'
    cases s with
    | negative =>
      cases h
      exact ⟨fun _ => hne, fun _ => rfl⟩
    | positive =>
      cases h
      constructor <;> intro h <;> cases h

end Decimal

namespace NumberPattern

open Decimal (decimalValue)

variable {min : Nat} {c : Char} {digits whole fraction grouped : List Char}

/-! ## Digits in front of the point -/

theorem isDigit_of_mem_padInteger (hdigits : ∀ c ∈ digits, c.isDigit = true)
    (h : c ∈ padInteger min digits) : c.isDigit = true := by
  rcases List.mem_append.1 h with h | h
  · rw [List.eq_of_mem_replicate h]
    decide
  · exact hdigits c (List.dropWhile_subset _ h)

theorem length_padInteger (min : Nat) (digits : List Char) :
    min ≤ (padInteger min digits).length := by
  unfold padInteger
  rw [List.length_append, List.length_replicate]
  omega

/-- A zero leads only where it is needed. -/
theorem length_padInteger_of_zero (h : (padInteger min digits).head? = some '0') :
    (padInteger min digits).length = min := by
  unfold padInteger at h ⊢
  dsimp only at h ⊢
  by_cases hshort : (digits.dropWhile (· == '0')).length < min
  · rw [List.length_append, List.length_replicate]
    omega
  · -- nothing is put in front, and what the zeros are taken off does not start with one
    rw [Nat.sub_eq_zero_of_le (Nat.not_lt.1 hshort), List.replicate_zero, List.nil_append] at h
    have hne := List.head?_dropWhile_not (· == '0') digits
    rw [h] at hne
    cases hne

theorem value_padInteger (min : Nat) (digits fraction : List Char) :
    decimalValue (padInteger min digits) fraction = decimalValue digits fraction := by
  unfold padInteger decimalValue
  rw [List.append_assoc, Decimal.ofDigitChars_zeros_append, Decimal.ofDigitChars_dropZeros]

/-! ## Digits behind the point -/

/-- Only zeros are taken away behind the point. -/
theorem exists_zeros_of_trimFraction (min : Nat) (digits : List Char) :
    ∃ k, digits = trimFraction min digits ++ List.replicate k '0' := by
  obtain ⟨k, hk⟩ := exists_replicate '0' (digits.drop min)
  refine ⟨k, ?_⟩
  rw [trimFraction, List.append_assoc, ← hk, List.take_append_drop]

theorem value_trimFraction (min : Nat) (whole digits : List Char) :
    decimalValue whole (trimFraction min digits) = decimalValue whole digits := by
  obtain ⟨k, hk⟩ := exists_zeros_of_trimFraction min digits
  have h := Decimal.decimalValue_append_zeros whole (trimFraction min digits) k
  rw [← hk] at h
  exact h.symm

theorem isDigit_of_mem_trimFraction (hdigits : ∀ c ∈ digits, c.isDigit = true)
    (h : c ∈ trimFraction min digits) : c.isDigit = true := by
  obtain ⟨k, hk⟩ := exists_zeros_of_trimFraction min digits
  apply hdigits
  rw [hk]
  exact List.mem_append_left _ h

theorem length_trimFraction_le (min : Nat) (digits : List Char) :
    (trimFraction min digits).length ≤ digits.length := by
  obtain ⟨k, hk⟩ := exists_zeros_of_trimFraction min digits
  have h := congrArg List.length hk
  rw [List.length_append] at h
  omega

theorem le_length_trimFraction (h : min ≤ digits.length) :
    min ≤ (trimFraction min digits).length := by
  unfold trimFraction
  rw [List.length_append, List.length_take_of_le h]
  exact Nat.le_add_right ..

/-- A zero trails only where it is needed. -/
theorem length_trimFraction_of_zero (hmin : min ≤ digits.length)
    (h : (trimFraction min digits).getLast? = some '0') :
    (trimFraction min digits).length = min := by
  unfold trimFraction at h ⊢
  cases hkept : (digits.drop min).reverse.dropWhile (· == '0') with
  | nil => simpa using hmin
  | cons c cs =>
    -- what is kept behind the first `min` digits does not end in a zero
    have hne := List.head?_dropWhile_not (· == '0') (digits.drop min).reverse
    rw [hkept] at hne h
    rw [List.reverse_cons, ← List.append_assoc, List.getLast?_concat] at h
    rw [Option.some.inj h] at hne
    cases hne

/-! ## Written numbers -/

/-- The digits of a written number in front of its point. -/
def wholeDigits (number : List Char) : List Char :=
  (number.filter (· != ',')).takeWhile (· != '.')

/-- The digits of a written number behind its point. -/
def fractionDigits (number : List Char) : List Char :=
  ((number.filter (· != ',')).dropWhile (· != '.')).drop 1

/-- `number` writes a rounded number with digits, commas and at most one point. It has as many
digits on either side of the point as are asked for, and no further zeros at the ends, apart from a
single zero in front of the point. -/
structure Writes (number : List Char) (minInteger minFraction : Nat) (rounded : Decimal.Places) :
    Prop where
  marks : ∀ c ∈ number, c.isDigit = true ∨ c = ',' ∨ c = '.'
  count_point : number.count '.' ≤ 1
  exists_digit : ∃ c ∈ number, c.isDigit = true
  value : decimalValue (wholeDigits number) (fractionDigits number) = rounded.value
  whole_length : minInteger ≤ (wholeDigits number).length
  leading_zero : (wholeDigits number).head? = some '0' →
    (wholeDigits number).length = minInteger ∨ wholeDigits number = ['0']
  fraction_length : minFraction ≤ (fractionDigits number).length
  fraction_length_le : (fractionDigits number).length ≤ rounded.fraction.length
  trailing_zero : (fractionDigits number).getLast? = some '0' →
    (fractionDigits number).length = minFraction

/-- The digits behind the point with the point, which is left out if there are none. -/
def pointed (fraction : List Char) : List Char :=
  if fraction.isEmpty then [] else '.' :: fraction

/-- The digits in front of the point; a zero, if there are no digits at all. -/
def writtenWhole (p : NumberPattern) (places : Decimal.Places) : List Char :=
  let integer := padInteger p.minIntegerDigits places.integer
  if (trimFraction p.minFractionDigits places.fraction).isEmpty && integer.isEmpty then ['0']
  else integer

theorem body_eq (p : NumberPattern) (places : Decimal.Places) :
    p.body places = p.group (p.writtenWhole places) ++
      pointed (trimFraction p.minFractionDigits places.fraction) := by
  unfold body writtenWhole pointed
  by_cases hfraction : trimFraction p.minFractionDigits places.fraction = []
  · simp [hfraction]
  · simp [hfraction]

theorem filter_pointed (h : ∀ c ∈ fraction, c.isDigit = true) :
    (pointed fraction).filter (· != ',') = pointed fraction := by
  rw [List.filter_eq_self]
  intro c hc
  unfold pointed at hc
  split at hc
  · cases hc
  · rcases List.mem_cons.1 hc with rfl | hc
    · decide
    · exact bne_iff_ne.2 (ne_of_mem_of_not_mem hc (notMem_of_digits rfl h))

/-- The digits of grouped digits and further ones behind a point are just these. -/
theorem digits_append_pointed (hgrouped : grouped.filter (· != ',') = whole)
    (hwhole : ∀ c ∈ whole, c.isDigit = true) (hfraction : ∀ c ∈ fraction, c.isDigit = true) :
    wholeDigits (grouped ++ pointed fraction) = whole ∧
      fractionDigits (grouped ++ pointed fraction) = fraction := by
  have hplain : ∀ c ∈ whole, (c != '.') = true :=
    fun c hc => bne_iff_ne.2 (ne_of_mem_of_not_mem hc (notMem_of_digits rfl hwhole))
  unfold wholeDigits fractionDigits
  rw [List.filter_append, hgrouped, filter_pointed hfraction,
    List.takeWhile_append_of_pos hplain, List.dropWhile_append_of_pos hplain]
  unfold pointed
  cases fraction with
  | nil => simp
  | cons c cs => simp

theorem mem_pointed (hfraction : ∀ c ∈ fraction, c.isDigit = true) (h : c ∈ pointed fraction) :
    c.isDigit = true ∨ c = '.' := by
  unfold pointed at h
  split at h
  · cases h
  · rcases List.mem_cons.1 h with rfl | h
    · exact .inr rfl
    · exact .inl (hfraction c h)

theorem count_pointed_le (hfraction : ∀ c ∈ fraction, c.isDigit = true) :
    (pointed fraction).count '.' ≤ 1 := by
  have hnone : fraction.count '.' = 0 := List.count_eq_zero.2 (notMem_of_digits rfl hfraction)
  unfold pointed
  split
  · exact Nat.zero_le 1
  · rw [List.count_cons_self, hnone]

/-- Grouped digits hold the digits and commas. -/
theorem mem_of_filter (h : grouped.filter (· != ',') = whole) (hc : c ∈ grouped) :
    c ∈ whole ∨ c = ',' := by
  by_cases hcomma : c = ','
  · exact .inr hcomma
  · left
    rw [← h, List.mem_filter]
    exact ⟨hc, by simpa using hcomma⟩

variable {p : NumberPattern} {places : Decimal.Places}

/-- In front of the point stand the padded digits, or a zero where there would be no digits. -/
theorem writtenWhole_cases (p : NumberPattern) (places : Decimal.Places) :
    (p.writtenWhole places = padInteger p.minIntegerDigits places.integer ∧
      (trimFraction p.minFractionDigits places.fraction ≠ [] ∨
        padInteger p.minIntegerDigits places.integer ≠ [])) ∨
    (p.writtenWhole places = ['0'] ∧ trimFraction p.minFractionDigits places.fraction = [] ∧
      padInteger p.minIntegerDigits places.integer = []) := by
  unfold writtenWhole
  by_cases hfraction : trimFraction p.minFractionDigits places.fraction = []
  · by_cases hinteger : padInteger p.minIntegerDigits places.integer = []
    · right
      simp [hfraction, hinteger]
    · left
      simp [hfraction, hinteger]
  · left
    simp [hfraction]

theorem isDigit_of_mem_writtenWhole (h : ∀ c ∈ places.integer, c.isDigit = true)
    (hc : c ∈ p.writtenWhole places) : c.isDigit = true := by
  rcases writtenWhole_cases p places with ⟨hwhole, -⟩ | ⟨hwhole, -, -⟩
  · rw [hwhole] at hc
    exact isDigit_of_mem_padInteger h hc
  · rw [hwhole, List.mem_singleton] at hc
    rw [hc]
    decide

/-- What is written in front of the point counts as the digits of the rounded number do. -/
theorem value_writtenWhole (p : NumberPattern) (places : Decimal.Places) :
    decimalValue (p.writtenWhole places) (trimFraction p.minFractionDigits places.fraction) =
      places.value := by
  have hvalue : decimalValue (padInteger p.minIntegerDigits places.integer)
      (trimFraction p.minFractionDigits places.fraction) = places.value := by
    rw [value_padInteger, value_trimFraction]
    rfl
  rcases writtenWhole_cases p places with ⟨hwhole, -⟩ | ⟨hwhole, hfraction, hinteger⟩
  · rw [hwhole, hvalue]
  · -- no digits stand for zero, and so does a zero
    rw [hfraction, hinteger] at hvalue
    rw [hwhole, hfraction, ← hvalue]
    rfl

theorem length_writtenWhole (p : NumberPattern) (places : Decimal.Places) :
    p.minIntegerDigits ≤ (p.writtenWhole places).length := by
  have hlength := length_padInteger p.minIntegerDigits places.integer
  rcases writtenWhole_cases p places with ⟨hwhole, -⟩ | ⟨hwhole, -, hinteger⟩
  · rw [hwhole]
    exact hlength
  · rw [hinteger] at hlength
    rw [hwhole]
    exact Nat.le_succ_of_le hlength

theorem leading_zero_writtenWhole (h : (p.writtenWhole places).head? = some '0') :
    (p.writtenWhole places).length = p.minIntegerDigits ∨ p.writtenWhole places = ['0'] := by
  rcases writtenWhole_cases p places with ⟨hwhole, -⟩ | ⟨hwhole, -, -⟩
  · rw [hwhole] at h ⊢
    exact .inl (length_padInteger_of_zero h)
  · exact .inr hwhole

/-- There is a digit on one side of the point. -/
theorem writtenWhole_ne_nil_or (p : NumberPattern) (places : Decimal.Places) :
    p.writtenWhole places ≠ [] ∨ trimFraction p.minFractionDigits places.fraction ≠ [] := by
  rcases writtenWhole_cases p places with ⟨hwhole, hfraction | hinteger⟩ | ⟨hwhole, -, -⟩
  · exact .inr hfraction
  · rw [hwhole]
    exact .inl hinteger
  · rw [hwhole]
    exact .inl nofun

/-- The digits of a formatted number write what the number is rounded to. -/
theorem writes_body (hinteger : ∀ c ∈ places.integer, c.isDigit = true)
    (hfraction : ∀ c ∈ places.fraction, c.isDigit = true)
    (hmin : p.minFractionDigits ≤ places.fraction.length) :
    Writes (p.body places) p.minIntegerDigits p.minFractionDigits places := by
  have hwhole : ∀ c ∈ p.writtenWhole places, c.isDigit = true :=
    fun c hc => isDigit_of_mem_writtenWhole hinteger hc
  have htrimmed : ∀ c ∈ trimFraction p.minFractionDigits places.fraction, c.isDigit = true :=
    fun c hc => isDigit_of_mem_trimFraction hfraction hc
  have hgroup := filter_group (p := p) hwhole
  obtain ⟨hwholeDigits, hfractionDigits⟩ := digits_append_pointed hgroup hwhole htrimmed
  rw [body_eq]
  refine ⟨?_, ?_, ?_, ?_, ?_, ?_, ?_, ?_, ?_⟩
  · -- digits and commas stand before the point, and digits after it
    intro c hc
    rcases List.mem_append.1 hc with hc | hc
    · rcases mem_of_filter hgroup hc with hc | hc
      · exact .inl (hwhole c hc)
      · exact .inr (.inl hc)
    · rcases mem_pointed htrimmed hc with hc | hc
      · exact .inl hc
      · exact .inr (.inr hc)
  · have hnone : (p.group (p.writtenWhole places)).count '.' = 0 := by
      rw [List.count_eq_zero]
      intro hmem
      rcases mem_of_filter hgroup hmem with hmem | hmem
      · exact notMem_of_digits rfl hwhole hmem
      · exact absurd hmem (by decide)
    rw [List.count_append, hnone, Nat.zero_add]
    exact count_pointed_le htrimmed
  · -- no digit is lost in the groups
    rcases writtenWhole_ne_nil_or p places with hne | hne
    · obtain ⟨c, hc⟩ := List.exists_mem_of_ne_nil _ hne
      have hmem : c ∈ p.group (p.writtenWhole places) := by
        rw [← hgroup] at hc
        exact (List.mem_filter.1 hc).1
      exact ⟨c, List.mem_append_left _ hmem, hwhole c hc⟩
    · obtain ⟨c, hc⟩ := List.exists_mem_of_ne_nil _ hne
      have hmem : c ∈ pointed (trimFraction p.minFractionDigits places.fraction) := by
        simp [pointed, hne, hc]
      exact ⟨c, List.mem_append_right _ hmem, htrimmed c hc⟩
  · rw [hwholeDigits, hfractionDigits]
    exact value_writtenWhole p places
  · rw [hwholeDigits]
    exact length_writtenWhole p places
  · rw [hwholeDigits]
    exact leading_zero_writtenWhole
  · rw [hfractionDigits]
    exact le_length_trimFraction hmin
  · rw [hfractionDigits]
    exact length_trimFraction_le _ _
  · rw [hfractionDigits]
    exact length_trimFraction_of_zero hmin

/-- **A formatted number keeps the value that it is rounded to.** A finite number is rounded to as
many places as the body of the pattern has zeros and number signs behind its point. What stands
before the body comes first, after a minus sign if the number is negative, and what stands after the
body comes last. Between them the rounded number is written with digits, commas and at most one
point: it has a digit, its value is that of the rounded number, there are at least as many digits on
either side of the point as the body has zeros there, and no zeros in addition at the ends, except
for a single one in front of the point. -/
theorem format_keeps_rounded (pattern : List Char) {x : Float} (hx : x.isFinite = true) :
    ∃ before body integer fraction after negative significand exponent,
      Parts pattern before body after ∧ Halves body integer fraction ∧
      Decimal.shape x = .finite negative significand exponent ∧
      let count := fraction.countP fun c => c == '0' || c == '#'
      let rounded := Decimal.places count significand exponent
      (rounded.integer ≠ [] ∧ rounded.fraction.length = count ∧
        ∀ c ∈ rounded.integer ++ rounded.fraction, c.isDigit = true) ∧
      rounded.value =
        Decimal.divideToEven (Decimal.numerator significand exponent * 10 ^ count)
          (Decimal.denominator exponent) / 10 ^ count ∧
      ∃ number,
        (ofChars pattern).formatChars x =
          (if x < 0 then ['-'] else []) ++ before ++ number ++ after ∧
        Writes number (integer.count '0') (fraction.count '0') rounded := by
  obtain ⟨before, body, integer, fraction, after, hparts, hhalves, hpattern⟩ := exists_parts pattern
  obtain ⟨negative, m, e, hshape⟩ := Decimal.exists_shape_of_isFinite hx
  refine ⟨before, body, integer, fraction, after, negative, m, e, hparts, hhalves, hshape, ?_⟩
  intro count rounded
  have hlength : rounded.fraction.length = count := Decimal.Places.fraction_length _ _
  have hdigits : ∀ c ∈ rounded.integer ++ rounded.fraction, c.isDigit = true :=
    fun c hc => Decimal.Places.isDigit_of_mem hc
  have hmin : fraction.count '0' ≤ rounded.fraction.length := by
    rw [hlength]
    apply List.countP_mono_left
    intro c _ hc
    simp [eq_of_beq hc]
  refine ⟨⟨List.ne_nil_of_length_pos (Decimal.Places.integer_length_pos _ _), hlength, hdigits⟩,
    Decimal.Places.value_ofScaled _ _, (ofChars pattern).body rounded, ?_, ?_⟩
  · unfold formatChars
    rw [hshape]
    dsimp only
    have hsign : (if (negative && m != 0) = true then ['-'] else []) =
        if x < 0 then ['-'] else [] := by
      simp only [Decimal.lt_zero_iff_of_shape hshape]
    rw [hsign, hpattern]
  · rw [hpattern]
    exact writes_body (fun c hc => hdigits c (List.mem_append_left _ hc))
      (fun c hc => hdigits c (List.mem_append_right _ hc)) hmin

/-- A negative amount of two places, written with one: the half goes to the even digit. -/
theorem format_keeps_rounded_rupees :
    (-1500.25 : Float).isFinite = true ∧
      (∃ before integer fraction after rounded number,
        (ofChars ['₹', '#', ',', '#', '#', '0', '.', '0']).formatChars (-1500.25) =
          (if (-1500.25 : Float) < 0 then ['-'] else []) ++ before ++ number ++ after ∧
        Writes number (List.count '0' integer) (List.count '0' fraction) rounded) ∧
      (ofChars ['₹', '#', ',', '#', '#', '0', '.', '0']).formatChars (-1500.25) =
        ['-', '₹', '1', ',', '5', '0', '0', '.', '2'] := by
  have hfinite : (-1500.25 : Float).isFinite = true := by decide +kernel
  obtain ⟨before, -, integer, fraction, after, -, m, e, -, -, -, -, -, number, hformat, hwrites⟩ :=
    format_keeps_rounded ['₹', '#', ',', '#', '#', '0', '.', '0'] hfinite
  exact ⟨hfinite, ⟨before, integer, fraction, after, _, number, hformat, hwrites⟩,
    by decide +kernel⟩

end NumberPattern

end Splice
