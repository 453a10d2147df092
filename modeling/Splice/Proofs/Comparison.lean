import Splice.Proofs.Calls
import Splice.Proofs.Nearest

/-!
# `Splice.Proofs.Comparison` — order and equality of numbers

The order of two numbers is that of their floats, and so is their equality unless both are integers;
those are compared as they are. Beyond 53 bits, different integers can have the same nearest float:
then neither is less than the other, and they are not equal, but each is less than or equal to the
other. Apart from such integers, order and equality go together.

## Contents
- `Value.IsNumber`: integers, and floats that are numbers.
- `Value.collide`: two different integers have the same nearest float; `collide_eq_false_of_lt` says
  that this needs more than 53 bits.
- `Value.equal_eq_of_float?`: the equality of two numbers, by their floats.
- `Builtin.answers_comparison`, `Builtin.answers_isEqual`: what the builtin functions answer.
- `Builtin.comparisons_coherent_iff`: when order and equality go together.
-/

namespace Splice

namespace Value

/-- An integer, or a float that is a number. -/
def IsNumber : Value → Prop
  | integer _ => True
  | float x => x.isNaN = false
  | _ => False

/-- Two different integers have the same nearest float. -/
def collide : Value → Value → Bool
  | integer i, integer j => i != j && Decimal.ofInt i.toInt == Decimal.ofInt j.toInt
  | _, _ => false

variable {v w : Value} {x y : Float}

theorem IsNumber.exists_float (h : v.IsNumber) : ∃ x, v.float? = some x ∧ x.isNaN = false := by
  cases v with
  | integer i => exact ⟨_, rfl, Decimal.isNaN_ofInt _⟩
  | float x => exact ⟨x, rfl, h⟩
  | _ => exact h.elim

/-- Two numbers are equal if their floats are, unless they collide. -/
theorem equal_eq_of_float? (hv : v.IsNumber) (hw : w.IsNumber) (hx : v.float? = some x)
    (hy : w.float? = some y) : v.equal w = (x == y && !v.collide w) := by
  cases v with
  | integer i =>
    cases w with
    | integer j =>
      cases hx
      cases hy
      rw [equal, collide]
      by_cases h : i = j
      · have hself : (Decimal.ofInt j.toInt == Decimal.ofInt j.toInt) = true :=
          Decimal.beq_self_iff.2 (Decimal.isNaN_ofInt _)
        simp [h, hself]
      · have hne : (i == j) = false := beq_eq_false_iff_ne.2 h
        simp [bne, hne]
    | float y =>
      cases hx
      cases hy
      simp [equal, collide]
    | _ => exact hw.elim
  | float x =>
    cases w with
    | integer j | float y =>
      cases hx
      cases hy
      simp [equal, collide]
    | _ => exact hw.elim
  | _ => exact hv.elim

/-- What collides has equal floats. -/
theorem beq_of_collide (h : v.collide w = true) (hx : v.float? = some x) (hy : w.float? = some y) :
    (x == y) = true := by
  cases v with
  | integer i =>
    cases w with
    | integer j =>
      cases hx
      cases hy
      exact (Bool.and_eq_true_iff.1 h).2
    | _ => cases h
  | _ => cases h

/-- Integers of up to 53 bits do not collide. -/
theorem collide_eq_false_of_lt {i j : Int64} (hi : i.toInt.natAbs < 2 ^ 53)
    (hj : j.toInt.natAbs < 2 ^ 53) : (integer i).collide (integer j) = false := by
  by_contra h
  obtain ⟨hne, hfloats⟩ := Bool.and_eq_true_iff.1 (Bool.eq_true_of_not_eq_false h)
  exact bne_iff_ne.1 hne (Int64.toInt_inj.1 (Decimal.ofInt_inj hi hj hfloats))

end Value

namespace Builtin

variable {v w : Value} {x y : Float}

/-- The answer of a comparison of two numbers is that of their floats. -/
theorem answers_comparison (b : Builtin) (holds : Float → Float → Bool)
    (haction : b.action 2 = Catalogue.comparison b holds 2) (hx : v.float? = some x)
    (hy : w.float? = some y) : b.Answers v w (.boolean (holds x y)) :=
  answers_of_binary haction rfl (by rw [hx, hy]; rfl)

theorem answers_isEqual (v w : Value) : isEqual.Answers v w (.boolean (v.equal w)) :=
  answers_of_binary rfl rfl (by rw [beq_true]; rfl)

/-- **Order and equality of two numbers go together unless the numbers collide.** The functions
answer with truth values. Exactly one of the answers less, equal and greater is true, less or equal
is answered exactly if one of the two is, and greater or equal likewise, if and only if the numbers
are not two integers with the same nearest float. If they are, none of the three answers is true,
but the two others are. Two integers of up to 53 bits never collide. -/
theorem comparisons_coherent_iff (hv : v.IsNumber) (hw : w.IsNumber) :
    ∃ less equal greater lessOrEqual greaterOrEqual : Bool,
      (lt.Answers v w (.boolean less) ∧ isEqual.Answers v w (.boolean equal) ∧
        gt.Answers v w (.boolean greater) ∧ lte.Answers v w (.boolean lessOrEqual) ∧
        gte.Answers v w (.boolean greaterOrEqual)) ∧
      (([less, equal, greater].count true = 1 ∧ lessOrEqual = (less || equal) ∧
        greaterOrEqual = (greater || equal)) ↔ v.collide w = false) ∧
      (v.collide w = true → [less, equal, greater].count true = 0 ∧ lessOrEqual = true ∧
        greaterOrEqual = true) ∧
      (∀ i j : Int64, v = .integer i → w = .integer j → i.toInt.natAbs < 2 ^ 53 →
        j.toInt.natAbs < 2 ^ 53 → v.collide w = false) := by
  obtain ⟨x, hx, hxn⟩ := hv.exists_float
  obtain ⟨y, hy, hyn⟩ := hw.exists_float
  obtain ⟨order, hlt, heq, hgt, hle, hge⟩ := Decimal.exists_order hxn hyn
  refine ⟨decide (x < y), v.equal w, decide (y < x), decide (x ≤ y), decide (y ≤ x),
    ⟨?_, answers_isEqual v w, ?_, ?_, ?_⟩, ?_⟩
  · exact answers_comparison lt (fun x y => x < y) rfl hx hy
  · exact answers_comparison gt (fun x y => y < x) rfl hx hy
  · exact answers_comparison lte (fun x y => x ≤ y) rfl hx hy
  · exact answers_comparison gte (fun x y => y ≤ x) rfl hx hy
  rw [Value.equal_eq_of_float? hv hw hx hy, hlt, heq, hgt, hle, hge, ← and_assoc]
  refine ⟨?_, ?_⟩
  · cases hcollide : v.collide w with
    | false => cases order <;> simp
    | true =>
      -- their floats are equal
      obtain rfl : order = .eq := by
        rw [Value.beq_of_collide hcollide hx hy] at heq
        exact eq_of_beq heq.symm
      simp
  · rintro i j rfl rfl hi hj
    exact Value.collide_eq_false_of_lt hi hj

/-- The first two positive integers that collide. -/
theorem comparisons_coherent_iff_54_bits :
    ∃ less equal greater lessOrEqual greaterOrEqual : Bool,
      (lt.Answers (.integer 9007199254740992) (.integer 9007199254740993) (.boolean less) ∧
        isEqual.Answers (.integer 9007199254740992) (.integer 9007199254740993) (.boolean equal) ∧
        gt.Answers (.integer 9007199254740992) (.integer 9007199254740993) (.boolean greater) ∧
        lte.Answers (.integer 9007199254740992) (.integer 9007199254740993)
          (.boolean lessOrEqual) ∧
        gte.Answers (.integer 9007199254740992) (.integer 9007199254740993)
          (.boolean greaterOrEqual)) ∧
      [less, equal, greater].count true = 0 ∧ lessOrEqual = true ∧ greaterOrEqual = true := by
  have hcollide : (Value.integer 9007199254740992).collide (.integer 9007199254740993) = true := by
    decide
  obtain ⟨less, equal, greater, lessOrEqual, greaterOrEqual, hanswers, -, h, -⟩ :=
    comparisons_coherent_iff (v := .integer 9007199254740992) (w := .integer 9007199254740993)
      trivial trivial
  exact ⟨less, equal, greater, lessOrEqual, greaterOrEqual, hanswers, h hcollide⟩

end Builtin

end Splice
