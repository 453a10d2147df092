import Mathlib.Tactic.IntervalCases
import Splice.Catalogue
import Splice.Proofs.Calls
import Splice.Proofs.Grouping
import Splice.Proofs.Nearest
import Splice.Proofs.Numerals

/-!
# `Splice.Proofs.Integers` — integers that pass through a float

Several builtin functions that turn integers into integers, or into text, go by way of a float: the
roundings take any number as a float, and so does the writing of numbers; a text is read as a float.
What comes out is the integer nearest to the given one that a float can have as its value. Only an
integer that is given as such is turned into an integer without this detour.

## Contents
- `clampInt64_nearestInt_eq_iff`: the integers that come back from the nearest float.
- `exists_readFloat?_toString`, `NumberPattern.formatChars_of_value`: integers read from text, and
  written after the plain pattern.
- `Builtin.maps_toInt_text`, `Builtin.maps_rounding`, `Builtin.answers_numberFormat`: what the
  functions answer.
- `Builtin.integers_pass_iff`: which integers pass.
-/

namespace Splice

namespace Decimal

open Scan (digitsValue digitsValue_toDigits)

variable {x : Float} {negative : Bool} {n : Nat} {i : Int}

/-! ## Integers of 64 bits -/

theorem toInt_clampInt64 (i : Int) :
    (clampInt64 i).toInt = max Int64.minValue.toInt (min Int64.maxValue.toInt i) := by
  have hmin : Int64.minValue.toInt = -2 ^ 63 := by decide
  have hmax : Int64.maxValue.toInt = 2 ^ 63 - 1 := by decide
  apply Int64.toInt_ofInt_of_le
  · omega
  · omega

/-- Integers that are their own nearest come back from it. So does the greatest one: its nearest is
beyond the range, and the greatest integer takes its place. -/
theorem clampInt64_nearestInt_eq_iff (i : Int64) :
    clampInt64 (nearestInt i.toInt) = i ↔ Fits i.toInt.natAbs ∨ i = Int64.maxValue := by
  have hlow := Int64.minValue_le_toInt i
  have hhigh := Int64.toInt_le i
  rw [← nearestInt_eq_self_iff, ← Int64.toInt_inj, ← Int64.toInt_inj, toInt_clampInt64]
  constructor
  · intro h
    by_cases hmin : i.toInt = Int64.minValue.toInt
    · -- the least integer is a power of two
      left
      rw [hmin, nearestInt_eq_self_iff]
      exact ⟨1, 63, by decide, by decide⟩
    · by_cases hmax : i.toInt = Int64.maxValue.toInt
      · exact .inr hmax
      · left
        omega
  · rintro (h | h)
    · rw [h]
      omega
    · rw [h]
      decide +kernel

/-! ## Integers in decimal -/

theorem toList_toString (i : Int) :
    (toString i).toList = (if i < 0 then ['-'] else []) ++ Nat.toDigits 10 i.natAbs := by
  rw [Int.toString_eq_repr, Int.repr_eq_if]
  by_cases hneg : i < 0
  · have habs : (-i).toNat = i.natAbs := by omega
    rw [if_neg (by omega), if_pos hneg, habs, String.toList_append, Nat.toList_repr]
    rfl
  · have habs : i.toNat = i.natAbs := by omega
    rw [if_pos (by omega), if_neg hneg, habs, Nat.toList_repr, List.nil_append]

/-- Different integers have different decimals: the digits and the minus can be told from them. -/
theorem toString_inj {i j : Int} (h : (toString i).toList = (toString j).toList) : i = j := by
  have hdigits : ∀ {m n : Nat}, Nat.toDigits 10 m = Nat.toDigits 10 n → m = n := by
    intro m n h
    rw [← Nat.ofDigitChars_ten_toDigits (n := m), h, Nat.ofDigitChars_ten_toDigits]
  have hminus : ∀ {n : Nat} {cs : List Char}, Nat.toDigits 10 n ≠ '-' :: cs := by
    intro n cs h
    have hdigit : '-'.isDigit = true :=
      Nat.isDigit_of_mem_toDigits (by decide) (by decide) (h ▸ List.mem_cons_self ..)
    cases hdigit
  rw [toList_toString, toList_toString] at h
  by_cases hi : i < 0 <;> by_cases hj : j < 0
  · rw [if_pos hi, if_pos hj] at h
    have habs := hdigits (List.cons.inj h).2
    omega
  · rw [if_pos hi, if_neg hj] at h
    exact absurd h.symm hminus
  · rw [if_neg hi, if_pos hj] at h
    exact absurd h hminus
  · rw [if_neg hi, if_neg hj] at h
    have habs := hdigits h
    omega

/-- The decimal of an integer reads as the float nearest to it. -/
theorem exists_readFloat?_toString (hi : i.natAbs < 2 ^ 64) :
    ∃ x, readFloat? (toString i).toList = some x ∧
      HasValue x (decide (i < 0)) (nearest i.natAbs) := by
  have hne : Nat.toDigits 10 i.natAbs ≠ [] := Nat.toDigits_ne_nil
  have hdigits : ∀ c ∈ Nat.toDigits 10 i.natAbs, c.isDigit = true :=
    fun c hc => Nat.isDigit_of_mem_toDigits (by decide) (by decide) hc
  have hmagnitude := readMagnitude?_of_digits hne hdigits
  rw [digitsValue_toDigits] at hmagnitude
  have hvalue := hasValue_ofDecimal hi
  rw [toList_toString]
  unfold readFloat?
  -- the sign is taken off the text, and put on what the digits read as
  by_cases hneg : i < 0
  · rw [if_pos hneg, decide_eq_true hneg]
    refine ⟨-ofDecimal i.natAbs 0, ?_, hvalue.neg⟩
    show (readMagnitude? (Nat.toDigits 10 i.natAbs)).map _ = _
    rw [hmagnitude]
    rfl
  · rw [if_neg hneg, decide_eq_false hneg, List.nil_append]
    refine ⟨ofDecimal i.natAbs 0, ?_, hvalue⟩
    have hsign : splitSign (Nat.toDigits 10 i.natAbs) = (false, Nat.toDigits 10 i.natAbs) := by
      cases hcs : Nat.toDigits 10 i.natAbs with
      | nil => exact absurd hcs hne
      | cons c cs =>
        rw [hcs] at hdigits
        exact splitSign_of_digit (hdigits c (List.mem_cons_self ..))
    rw [hsign]
    dsimp only
    rw [hmagnitude]
    rfl

/-- No zero leads the digits of a number other than zero. -/
theorem head?_toDigits_ne_zero (hn : n ≠ 0) : (Nat.toDigits 10 n).head? ≠ some '0' := by
  induction n using Nat.strong_induction_on with
  | _ n ih =>
    rw [Nat.toDigits_eq_if (by decide)]
    by_cases hlt : n < 10
    · rw [if_pos hlt, List.head?_cons]
      intro h
      interval_cases n
      · exact hn rfl
      all_goals exact absurd h (by decide)
    · -- the digits of a tenth come first
      rw [if_neg hlt, List.head?_append_of_ne_nil _ Nat.toDigits_ne_nil]
      exact ih (n / 10) (by omega) (by omega)

theorem dropZeros_toDigits (hn : n ≠ 0) :
    (Nat.toDigits 10 n).dropWhile (· == '0') = Nat.toDigits 10 n := by
  have hhead := head?_toDigits_ne_zero hn
  cases hcs : Nat.toDigits 10 n with
  | nil => rfl
  | cons c cs =>
    rw [hcs] at hhead
    have hc : (c == '0') = false := by simpa using hhead
    rw [List.dropWhile_cons, hc]
    rfl

theorem Places.ofScaled_zero (n : Nat) : Places.ofScaled n 0 = ⟨Nat.toDigits 10 n, []⟩ := by
  have hpadding : 0 + 1 - (Nat.toDigits 10 n).length = 0 := by
    have hlength := Nat.length_toDigits_pos (b := 10) (n := n)
    omega
  unfold Places.ofScaled digitsOf
  simp [hpadding]

end Decimal

/-! ## Integers after a pattern -/

namespace NumberPattern

open Decimal (HasValue signed)

variable {x : Float} {negative : Bool} {n : Nat}

/-- The pattern that asks for digits and nothing else. -/
def plain : List Char := ['#']

theorem ofChars_plain : ofChars plain =
    { before := [], after := [], primaryGroup := 0, secondaryGroup := 0, minIntegerDigits := 0
      minFractionDigits := 0, maxFractionDigits := 0 } := by decide

/-- It writes a number without a fraction as its digits. -/
theorem body_plain (n : Nat) :
    (ofChars plain).body (Decimal.Places.ofScaled n 0) = Nat.toDigits 10 n := by
  have hinteger : (if (padInteger 0 (Nat.toDigits 10 n)).isEmpty then ['0']
      else padInteger 0 (Nat.toDigits 10 n)) = Nat.toDigits 10 n := by
    by_cases hn : n = 0
    · rw [hn]
      rfl
    · -- there is no zero to be taken away in front
      have hpad : padInteger 0 (Nat.toDigits 10 n) = Nat.toDigits 10 n := by
        unfold padInteger
        simp [Decimal.dropZeros_toDigits hn]
      rw [hpad]
      simp
  have htrim : trimFraction 0 [] = [] := rfl
  rw [Decimal.Places.ofScaled_zero, ofChars_plain]
  unfold body
  dsimp only
  rw [htrim, List.isEmpty_nil, if_pos rfl, hinteger]
  exact group_of_le (.inl rfl)

/-- So it writes a float with an integer value as this integer. -/
theorem formatChars_of_value (h : HasValue x negative n) :
    (ofChars plain).formatChars x = (toString (signed negative n)).toList := by
  obtain ⟨m, e, hshape, hvalue⟩ := h.exists_shape
  have hzero : m = 0 ↔ n = 0 := by
    rw [← Decimal.numerator_eq_zero_iff (e := e), hvalue, Nat.mul_eq_zero]
    constructor
    · rintro (hn | hden)
      · exact hn
      · exact absurd hden (Decimal.denominator_pos e).ne'
    · exact .inl
  have hsign : (negative && m != 0) = true ↔ signed negative n < 0 := by
    rw [Bool.and_eq_true, bne_iff_ne, ne_eq, hzero]
    unfold signed
    cases negative with
    | false => simp
    | true => simp
  have hbody : (ofChars plain).body (Decimal.places (ofChars plain).maxFractionDigits m e) =
      Nat.toDigits 10 n := by
    rw [← body_plain, ← Decimal.places_of_value hvalue, ofChars_plain]
  unfold formatChars
  rw [hshape]
  dsimp only
  rw [hbody, Decimal.toList_toString, Decimal.natAbs_signed]
  simp only [hsign]
  rw [ofChars_plain]
  simp

end NumberPattern

/-! ## Functions of one number -/

namespace Builtin

open Decimal (clampInt64 nearestInt Fits HasValue signed)

variable {x : Float} {negative : Bool} {n : Nat} {pattern : String} {v : Value}

theorem natAbs_toInt_lt (i : Int64) : i.toInt.natAbs < 2 ^ 64 := by
  have hlow := Int64.le_toInt i
  have hhigh := Int64.toInt_lt i
  omega

/-- An integer in decimal does not look like a hexadecimal one. -/
theorem integerOfChars?_toString (i : Int) :
    Catalogue.integerOfChars? (toString i).toList =
      (Decimal.readFloat? (toString i).toList).bind Catalogue.truncated? := by
  unfold Catalogue.integerOfChars?
  split
  · next digits hcs =>
    -- the letter is neither the sign nor a digit
    have hmem : 'x' ∈ (toString i).toList := by
      rw [hcs]
      simp
    rw [Decimal.toList_toString] at hmem
    rcases List.mem_append.1 hmem with hsign | hdigit
    · split at hsign <;> simp at hsign
    · exact absurd (Nat.isDigit_of_mem_toDigits (by decide) (by decide) hdigit) (by decide)
  · rfl

/-- A text is turned into the integer of a float. -/
theorem maps_toInt_text (i : Int64) :
    toInt.Maps (.text (toString i.toInt)) (.integer (clampInt64 (nearestInt i.toInt))) := by
  obtain ⟨x, hread, hvalue⟩ := Decimal.exists_readFloat?_toString (natAbs_toInt_lt i)
  have hinteger : Catalogue.toInteger? (.text (toString i.toInt)) =
      some (clampInt64 (nearestInt i.toInt)) := by
    show Catalogue.integerOfChars? (toString i.toInt).toList = _
    rw [integerOfChars?_toString, hread, Option.bind_some]
    unfold Catalogue.truncated?
    rw [hvalue.truncate?_eq]
    rfl
  apply maps_of_unary (b := toInt) rfl rfl
  rw [hinteger]
  rfl

/-- An integer is rounded as a float. -/
theorem maps_rounding {round? : Float → Option Int} {b : Builtin}
    (haction : b.action 1 = Catalogue.rounding b round? 1) (i : Int64)
    (hround : round? (Decimal.ofInt i.toInt) = some (nearestInt i.toInt)) :
    b.Maps (.integer i) (.integer (clampInt64 (nearestInt i.toInt))) := by
  obtain ⟨m, e, hshape, -⟩ := (Decimal.hasValue_ofInt (natAbs_toInt_lt i)).exists_shape
  have hnearest : Catalogue.nearestInt64 round? (Decimal.ofInt i.toInt) =
      clampInt64 (nearestInt i.toInt) := by
    unfold Catalogue.nearestInt64
    rw [hshape]
    dsimp only
    rw [hround]
    rfl
  apply maps_of_unary haction rfl
  show Action.done (Value.integer (Catalogue.nearestInt64 round? (Decimal.ofInt i.toInt))) = _
  rw [hnearest]

/-- A number is written after the pattern that the second argument gives. -/
theorem answers_numberFormat (hv : v.float? = some x) :
    numberFormat.Answers v (.text pattern) (.text ((NumberPattern.ofString pattern).format x)) := by
  apply answers_of_reads (b := numberFormat) rfl
  · rw [hv]
    rfl
  · rfl

/-- **Integers pass through the functions of one number exactly if they fit a float.** An integer
that is given as such is turned into an integer as it is. From its decimal text, and when it is
rounded down or up, comes the integer nearest to it that is the value of a float, or the end of the
range if that lies beyond it. When it is written after the plain pattern, the nearest value itself
comes out. So all of these give the integer back exactly if it has at most 53 bits from the first to
the last one that is set; where text is read and numbers are rounded, the greatest integer comes
back as well. -/
theorem integers_pass_iff (i : Int64) :
    let number := Value.integer i
    let text := Value.text (toString i.toInt)
    let rounded := Value.integer (clampInt64 (nearestInt i.toInt))
    toInt.Maps number number ∧
    toInt.Maps text rounded ∧ floor.Maps number rounded ∧ ceil.Maps number rounded ∧
    numberFormat.Answers number (.text "#") (.text (toString (nearestInt i.toInt))) ∧
    (rounded = number ↔ Fits i.toInt.natAbs ∨ i = Int64.maxValue) ∧
    (toInt.Maps text number ∧ floor.Maps number number ∧ ceil.Maps number number ∧
        numberFormat.Answers number (.text "#") text ↔
      Fits i.toInt.natAbs) := by
  intro number text rounded
  have hvalue := Decimal.hasValue_ofInt (natAbs_toInt_lt i)
  have htext : toInt.Maps text rounded := maps_toInt_text i
  have hfloor : floor.Maps number rounded := maps_rounding rfl i hvalue.floor?_eq
  have hceil : ceil.Maps number rounded := maps_rounding rfl i hvalue.ceil?_eq
  have hformat : numberFormat.Answers number (.text "#")
      (.text (toString (nearestInt i.toInt))) := by
    have hchars := NumberPattern.formatChars_of_value hvalue
    have hwritten : (NumberPattern.ofString "#").format (Decimal.ofInt i.toInt) =
        toString (nearestInt i.toInt) := by
      unfold NumberPattern.format
      show String.ofList ((NumberPattern.ofChars NumberPattern.plain).formatChars _) = _
      rw [hchars, String.ofList_toList]
      rfl
    rw [← hwritten]
    exact answers_numberFormat rfl
  have hrounded : rounded = number ↔ Fits i.toInt.natAbs ∨ i = Int64.maxValue := by
    rw [← Decimal.clampInt64_nearestInt_eq_iff]
    exact ⟨Value.integer.inj, congrArg Value.integer⟩
  refine ⟨maps_of_unary (b := toInt) rfl rfl rfl, htext, hfloor, hceil, hformat, hrounded, ?_⟩
  constructor
  · -- there is one answer only, and a text has one value
    rintro ⟨-, -, -, hanswer⟩
    have hsame := Value.text.inj (hformat.unique hanswer)
    have hnearest := Decimal.toString_inj (congrArg String.toList hsame)
    exact Decimal.nearestInt_eq_self_iff.1 hnearest
  · intro hfits
    have hsame := hrounded.2 (.inl hfits)
    have hnearest := Decimal.nearestInt_eq_self_iff.2 hfits
    rw [hsame] at htext hfloor hceil
    rw [hnearest] at hformat
    exact ⟨htext, hfloor, hceil, hformat⟩

end Builtin

end Splice
