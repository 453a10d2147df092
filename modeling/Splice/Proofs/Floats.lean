import Splice.Decimal.Exact

/-!
# `Splice.Proofs.Floats` — floats and how they compare

Two floats compare unless one of them is no number; the one is then less than the other, equal to it
or greater. The two zeros are equal, and apart from them a float is equal to itself alone. Every
integer has a nearest float, which is a number.

## Contents
- `order?`: how two floats compare; `lt_iff_order?`, `beq_iff_order?`, `le_iff_order?` read the
  three comparisons off it, `exists_order` all of them at once.
- `beq_comm`, `beq_trans`, `beq_self_iff`, `whole?_eq_of_beq`: equality.
- `Encodes`, `encodes_unpack`: the sign, the exponent and the mantissa of what floats stand for.
- `unpack_pack_of_normal`, `pack_unpack_eq`: where nothing is lost when a float is packed or
  unpacked; `unpack_injOn` tells floats apart.
- `isNaN_ofInt`: the float nearest to an integer is a number.
-/

namespace Splice.Decimal

open Float.Model (UnpackedFloat Format)
open Float.Model.UnpackedFloat

variable {x y z : Float} {n : Int}

/-! ## Comparison -/

/-- How two floats compare; they do not if one of them is no number. -/
def order? (x y : Float) : Option Ordering := x.toModel.unpack.compare y.toModel.unpack

theorem lt_iff_order? : x < y ↔ order? x y = some .lt := by
  show decide (x.toModel < y.toModel) = true ↔ _
  rw [decide_eq_true_iff]
  show (order? x y == some .lt) = true ↔ _
  exact beq_iff_eq

theorem beq_iff_order? : (x == y) = true ↔ order? x y = some .eq := by
  show (order? x y == some .eq) = true ↔ _
  exact beq_iff_eq

theorem le_iff_order? : x ≤ y ↔ ∃ o, order? x y = some o ∧ o.isLE = true := by
  show decide (x.toModel ≤ y.toModel) = true ↔ _
  rw [decide_eq_true_iff]
  show (order? x y).any Ordering.isLE = true ↔ _
  exact Option.any_eq_true ..

/-- The two sides may be exchanged. -/
theorem order?_swap (x y : Float) : order? y x = (order? x y).map Ordering.swap := by
  unfold order?
  generalize x.toModel.unpack = a
  generalize y.toModel.unpack = b
  have hmagnitude : ∀ (e e' : Int) (m m' : Nat),
      (compare e' e).then (compare m' m) = ((compare e e').then (compare m m')).swap := by
    intro e e' m m'
    rw [Ordering.swap_then, ← Std.OrientedCmp.eq_swap, ← Std.OrientedCmp.eq_swap]
  -- only two finite floats of one sign are compared by more than their shapes and signs
  rcases a with (_ | _) | _ | (_ | _) | ⟨(_ | _), m, e, hm⟩ <;>
    rcases b with (_ | _) | _ | (_ | _) | ⟨(_ | _), m', e', hm'⟩ <;>
    first
    | rfl
    | exact congrArg some (hmagnitude e e' m m')
    | exact congrArg (fun o => some o.swap) (hmagnitude e e' m m')

theorem isNaN_iff_unpack : x.isNaN = true ↔ x.toModel.unpack = .notANumber := by
  show x.toModel.unpack.isNaN = true ↔ _
  cases x.toModel.unpack with
  | notANumber => exact ⟨fun _ => rfl, fun _ => rfl⟩
  | _ => exact ⟨fun h => Bool.noConfusion h, fun h => UnpackedFloat.noConfusion h⟩

theorem isNaN_eq_false_iff_unpack : x.isNaN = false ↔ x.toModel.unpack ≠ .notANumber := by
  rw [ne_eq, ← isNaN_iff_unpack, Bool.not_eq_true]

/-- Only what is no number does not compare. -/
theorem order?_eq_none_iff : order? x y = none ↔ x.isNaN = true ∨ y.isNaN = true := by
  rw [isNaN_iff_unpack, isNaN_iff_unpack, order?]
  generalize x.toModel.unpack = a
  generalize y.toModel.unpack = b
  constructor
  · intro h
    rcases a with (_ | _) | _ | (_ | _) | ⟨(_ | _), m, e, hm⟩ <;>
      rcases b with (_ | _) | _ | (_ | _) | ⟨(_ | _), m', e', hm'⟩ <;>
      first
      | exact .inl rfl
      | exact .inr rfl
      | cases h
  · rintro (rfl | rfl)
    · rfl
    · cases a <;> rfl

/-- All comparisons of two numbers follow from how they compare. -/
theorem exists_order (hx : x.isNaN = false) (hy : y.isNaN = false) :
    ∃ o : Ordering, decide (x < y) = (o == .lt) ∧ (x == y) = (o == .eq) ∧
      decide (y < x) = (o == .gt) ∧ decide (x ≤ y) = o.isLE ∧ decide (y ≤ x) = o.isGE := by
  obtain ⟨o, ho⟩ : ∃ o, order? x y = some o := by
    refine Option.ne_none_iff_exists'.1 ?_
    rw [ne_eq, order?_eq_none_iff, hx, hy]
    simp
  have hswap : order? y x = some o.swap := by rw [order?_swap, ho, Option.map_some]
  refine ⟨o, ?_, ?_, ?_, ?_, ?_⟩
  · rw [Bool.eq_iff_iff, decide_eq_true_iff, lt_iff_order?, ho]
    simp
  · rw [Bool.eq_iff_iff, beq_iff_order?, ho]
    simp
  · rw [Bool.eq_iff_iff, decide_eq_true_iff, lt_iff_order?, hswap]
    cases o <;> decide
  · rw [Bool.eq_iff_iff, decide_eq_true_iff, le_iff_order?, ho]
    simp
  · rw [Bool.eq_iff_iff, decide_eq_true_iff, le_iff_order?, hswap]
    cases o <;> simp

/-! ## Equality -/

/-- Two floats are equal if they are the same number or both zero. -/
theorem beq_iff_unpack : (x == y) = true ↔
    x.isNaN = false ∧ y.isNaN = false ∧
      (x.toModel.unpack = y.toModel.unpack ∨
        ∃ s s', x.toModel.unpack = .zero s ∧ y.toModel.unpack = .zero s') := by
  rw [isNaN_eq_false_iff_unpack, isNaN_eq_false_iff_unpack, beq_iff_order?, order?]
  generalize x.toModel.unpack = a
  generalize y.toModel.unpack = b
  have hmagnitude : ∀ {e e' : Int} {m m' : Nat},
      (compare e e').then (compare m m') = .eq ↔ e = e' ∧ m = m' := by
    intro e e' m m'
    rw [Ordering.then_eq_eq, Std.compare_eq_iff_eq, Std.compare_eq_iff_eq]
  constructor
  · intro h
    have ha : a ≠ .notANumber := by
      rintro rfl
      cases h
    have hb : b ≠ .notANumber := by
      rintro rfl
      cases a <;> cases h
    refine ⟨ha, hb, ?_⟩
    rcases a with (_ | _) | _ | (_ | _) | ⟨(_ | _), m, e, hm⟩ <;>
      rcases b with (_ | _) | _ | (_ | _) | ⟨(_ | _), m', e', hm'⟩ <;>
      first
      | exact .inl rfl
      | exact .inr ⟨_, _, rfl, rfl⟩
      | cases h
      | skip
    · obtain ⟨rfl, rfl⟩ := hmagnitude.1 (Ordering.swap_eq_eq.1 (Option.some.inj h))
      exact .inl rfl
    · obtain ⟨rfl, rfl⟩ := hmagnitude.1 (Option.some.inj h)
      exact .inl rfl
  · rintro ⟨ha, -, rfl | ⟨s, s', rfl, rfl⟩⟩
    · have hsame : ∀ (e : Int) (m : Nat), (compare e e).then (compare m m) = .eq :=
        fun e m => hmagnitude.2 ⟨rfl, rfl⟩
      rcases a with (_ | _) | _ | (_ | _) | ⟨(_ | _), m, e, hm⟩ <;>
        first
        | rfl
        | exact absurd rfl ha
        | exact congrArg some (hsame e m)
        | exact congrArg (fun o => some o.swap) (hsame e m)
    · rfl

theorem beq_comm (x y : Float) : (x == y) = (y == x) := by
  rw [Bool.eq_iff_iff, beq_iff_order?, beq_iff_order?, order?_swap x y]
  cases order? x y with
  | none => simp
  | some o => cases o <;> simp

theorem beq_trans (hxy : (x == y) = true) (hyz : (y == z) = true) : (x == z) = true := by
  obtain ⟨hx, hy, hxy⟩ := beq_iff_unpack.1 hxy
  obtain ⟨-, hz, hyz⟩ := beq_iff_unpack.1 hyz
  refine beq_iff_unpack.2 ⟨hx, hz, ?_⟩
  rcases hxy with heq | ⟨s, s', hxs, hys⟩
  · rw [heq]
    exact hyz
  · -- all three are zeros
    rcases hyz with heq | ⟨t, t', hyt, hzt⟩
    · rw [← heq]
      exact .inr ⟨s, s', hxs, hys⟩
    · exact .inr ⟨s, t', hxs, hzt⟩

theorem beq_self_iff : (x == x) = true ↔ x.isNaN = false := by
  rw [beq_iff_unpack]
  exact ⟨fun h => h.1, fun h => ⟨h, h, .inl rfl⟩⟩

/-- Equal floats have the same value. -/
theorem whole?_eq_of_beq (h : (x == y) = true) : whole? x = whole? y := by
  obtain ⟨-, -, heq | ⟨s, s', hx, hy⟩⟩ := beq_iff_unpack.1 h
  · rw [whole?, whole?, shape, shape, heq]
  · rw [whole?, whole?, shape, shape, hx, hy]
    cases s <;> cases s' <;> rfl

/-! ## The fields of a float -/

variable {a : UnpackedFloat} {b b' : BitVec Format.binary64.numBits} {s : Sign} {m : Nat} {e : Int}

/-- What the bits of a float stand for. The greatest exponent is left to the infinities and to what
is no number, the least one to the zeros and to the numbers whose significand has fewer bits. -/
inductive Encodes (b : BitVec Format.binary64.numBits) : UnpackedFloat → Prop
  | notANumber (hexponent : unpackExponent b = -1#11) (hmantissa : unpackMantissa b ≠ 0#52) :
      Encodes b .notANumber
  | infinity {s : Sign} (hsign : Sign.ofBitVec (unpackSign b) = s)
      (hexponent : unpackExponent b = -1#11) (hmantissa : unpackMantissa b = 0#52) :
      Encodes b (.infinity s)
  | zero {s : Sign} (hsign : Sign.ofBitVec (unpackSign b) = s)
      (hexponent : unpackExponent b = 0#11) (hmantissa : unpackMantissa b = 0#52) :
      Encodes b (.zero s)
  | subnormal {s : Sign} {m : Nat} (hsign : Sign.ofBitVec (unpackSign b) = s)
      (hexponent : unpackExponent b = 0#11) (hmantissa : (unpackMantissa b).toNat = m)
      (hm : 0 < m) : Encodes b (.finite s m (-1074) hm)
  | normal {s : Sign} {m : Nat} {e : Int} (hsign : Sign.ofBitVec (unpackSign b) = s)
      (hleast : unpackExponent b ≠ 0#11) (hgreatest : unpackExponent b ≠ -1#11)
      (hexponent : (unpackExponent b).toNat - 1075 = e)
      (hmantissa : (1#1 ++ unpackMantissa b).toNat = m) (hm : 0 < m) : Encodes b (.finite s m e hm)

theorem unpack_of_normal (hsign : Sign.ofBitVec (unpackSign b) = s)
    (hleast : unpackExponent b ≠ 0#11) (hgreatest : unpackExponent b ≠ -1#11)
    (hexponent : (unpackExponent b).toNat - 1075 = e)
    (hmantissa : (1#1 ++ unpackMantissa b).toNat = m) (hm : 0 < m) :
    unpack .binary64 b = .finite s m e hm := by
  subst hsign hexponent hmantissa
  exact (if_neg hgreatest).trans (if_neg hleast)

/-- A significand of 53 bits has its first bit in front of the mantissa. -/
theorem toNat_one_append (f : BitVec 52) : (1#1 ++ f).toNat = Nat.pow 2 52 + f.toNat := by
  rw [BitVec.toNat_append, ← Nat.shiftLeft_add_eq_or_of_lt (BitVec.isLt _), Nat.shiftLeft_eq]
  rfl

/-- Bits are unpacked to what they stand for. -/
theorem encodes_unpack (b : BitVec Format.binary64.numBits) : Encodes b (unpack .binary64 b) := by
  by_cases hgreatest : unpackExponent b = -1#11
  · by_cases hmantissa : unpackMantissa b = 0#52
    · have h : unpack .binary64 b = .infinity (Sign.ofBitVec (unpackSign b)) :=
        (if_pos hgreatest).trans (if_pos hmantissa)
      rw [h]
      exact .infinity rfl hgreatest hmantissa
    · have h : unpack .binary64 b = .notANumber := (if_pos hgreatest).trans (if_neg hmantissa)
      rw [h]
      exact .notANumber hgreatest hmantissa
  by_cases hleast : unpackExponent b = 0#11
  · by_cases hmantissa : unpackMantissa b = 0#52
    · have h : unpack .binary64 b = .zero (Sign.ofBitVec (unpackSign b)) :=
        (if_neg hgreatest).trans ((if_pos hleast).trans (dif_pos hmantissa))
      rw [h]
      exact .zero rfl hleast hmantissa
    · have hm : 0 < (unpackMantissa b).toNat :=
        (BitVec.toNat_pos _).2 ((BitVec.pos_iff_ne_zero _).2 hmantissa)
      have h : unpack .binary64 b = .finite (Sign.ofBitVec (unpackSign b)) (unpackMantissa b).toNat
          ((unpackExponent b).toNat - 1075 + 1) hm :=
        (if_neg hgreatest).trans ((if_pos hleast).trans (dif_neg hmantissa))
      have hexponent : ((unpackExponent b).toNat : Int) - 1075 + 1 = -1074 := by
        rw [hleast]
        rfl
      rw [h, hexponent]
      exact .subnormal rfl hleast rfl hm
  · have hm : 0 < (1#1 ++ unpackMantissa b).toNat := by
      rw [toNat_one_append]
      exact Nat.add_pos_left (Nat.two_pow_pos 52) _
    rw [unpack_of_normal rfl hleast hgreatest rfl rfl hm]
    exact .normal rfl hleast hgreatest rfl rfl hm

/-! ## Packing and unpacking -/

theorem toNat_cast_extractLsb {hi lo n : Nat} (h : hi - lo + 1 = n) :
    ((b.extractLsb hi lo).cast h).toNat = b.toNat / Nat.pow 2 lo % Nat.pow 2 n := by
  rw [BitVec.toNat_cast, BitVec.extractLsb_toNat, Nat.shiftRight_eq_div_pow, h]
  rfl

theorem toNat_packComponents (s : Sign) (e : BitVec 11) (f : BitVec 52) :
    (packComponents .binary64 s e f).toNat =
      (s.toBitVec.toNat * Nat.pow 2 11 + e.toNat) * Nat.pow 2 52 + f.toNat := by
  show (s.toBitVec ++ e ++ f).toNat = _
  rw [BitVec.toNat_append, BitVec.toNat_append, ← Nat.shiftLeft_add_eq_or_of_lt f.isLt,
    ← Nat.shiftLeft_add_eq_or_of_lt e.isLt, Nat.shiftLeft_eq, Nat.shiftLeft_eq]

/-- The bits of a float are its sign, its exponent and its mantissa. -/
theorem packComponents_fields (b : BitVec Format.binary64.numBits) :
    packComponents .binary64 (Sign.ofBitVec (unpackSign b)) (unpackExponent b) (unpackMantissa b) =
      b := by
  have hbit : ∀ v : BitVec 1, (Sign.ofBitVec v).toBitVec = v := by
    intro v
    rcases BitVec.eq_zero_or_eq_one v with rfl | rfl <;> rfl
  have hsign : (unpackSign b).toNat = b.toNat / 2 ^ 63 % 2 := toNat_cast_extractLsb _
  have hexponent : (unpackExponent b).toNat = b.toNat / 2 ^ 52 % 2 ^ 11 := toNat_cast_extractLsb _
  have hmantissa : (unpackMantissa b).toNat = b.toNat / 2 ^ 0 % 2 ^ 52 := toNat_cast_extractLsb _
  have hb : b.toNat < 2 ^ 64 := b.isLt
  apply BitVec.eq_of_toNat_eq
  rw [toNat_packComponents, hbit, hsign, hexponent, hmantissa]
  show (b.toNat / 2 ^ 63 % 2 * 2 ^ 11 + b.toNat / 2 ^ 52 % 2 ^ 11) * 2 ^ 52 +
    b.toNat / 2 ^ 0 % 2 ^ 52 = b.toNat
  omega

theorem sign_packComponents (s : Sign) (e : BitVec 11) (f : BitVec 52) :
    Sign.ofBitVec (unpackSign (packComponents .binary64 s e f)) = s := by
  have he := e.isLt
  have hf := f.isLt
  have hs := s.toBitVec.isLt
  have hsign : unpackSign (packComponents .binary64 s e f) = s.toBitVec := by
    apply BitVec.eq_of_toNat_eq
    refine (toNat_cast_extractLsb _).trans ?_
    rw [toNat_packComponents]
    show ((s.toBitVec.toNat * 2 ^ 11 + e.toNat) * 2 ^ 52 + f.toNat) / 2 ^ 63 % 2 ^ 1 = _
    omega
  rw [hsign]
  cases s <;> rfl

/-- A significand of 53 bits loses its first bit, and the exponent is counted from the least one. -/
theorem pack_of_normal (hm : 0 < m) (hlog : m.log2 = 52) (hlow : -1074 ≤ e) (hhigh : e ≤ 971)
    (s : Sign) :
    pack .binary64 (.finite s m e hm) =
      packComponents .binary64 s (BitVec.ofNat 11 (e + 1075).toNat) (BitVec.ofNat 52 m) := by
  have hbias : e + Format.binary64.exponentBias +
      Format.binary64.mantissaBitsWithoutImplicit = e + 1075 := Int.add_assoc e _ _
  have hfits : ¬ 2 ^ 11 ≤ (e + Format.binary64.exponentBias +
      Format.binary64.mantissaBitsWithoutImplicit).toNat + 1 := by
    rw [hbias]
    omega
  have hnormal : m.log2 + 1 = 53 := by rw [hlog]
  rw [← hbias]
  exact (if_neg hfits).trans (if_pos hnormal)

/-- A float whose significand has 53 bits is unpacked as it was packed. -/
theorem unpack_pack_of_normal (hm : 0 < m) (hlog : m.log2 = 52) (hlow : -1074 ≤ e)
    (hhigh : e ≤ 971) (s : Sign) :
    unpack .binary64 (pack .binary64 (.finite s m e hm)) = .finite s m e hm := by
  have hbits : (BitVec.ofNat 11 (e + 1075).toNat).toNat = (e + 1075).toNat := by
    rw [BitVec.toNat_ofNat]
    omega
  have hm52 : 2 ^ 52 ≤ m := hlog ▸ Nat.log2_self_le (Nat.ne_of_gt hm)
  have hm53 : m < 2 ^ 53 := by
    have h := Nat.lt_log2_self (n := m)
    rwa [hlog] at h
  rw [pack_of_normal hm hlog hlow hhigh]
  apply unpack_of_normal (sign_packComponents ..)
  -- the least and the greatest exponent stand for something else
  · rw [unpackExponent_packComponents]
    intro h
    have h : (e + 1075).toNat = 0 := hbits ▸ congrArg BitVec.toNat h
    omega
  · rw [unpackExponent_packComponents]
    intro h
    have h : (e + 1075).toNat = 2047 := hbits ▸ congrArg BitVec.toNat h
    omega
  · rw [unpackExponent_packComponents, hbits]
    omega
  · rw [unpackMantissa_packComponents, toNat_one_append, BitVec.toNat_ofNat, Nat.pow_eq]
    omega

/-- What stands for a number is packed to the same bits. -/
theorem Encodes.pack_eq (h : Encodes b a) (ha : a ≠ .notANumber) : pack .binary64 a = b := by
  have hfields := packComponents_fields b
  cases h with
  | notANumber => exact absurd rfl ha
  | infinity hsign hexponent hmantissa =>
    rw [hsign, hexponent, hmantissa] at hfields
    exact hfields
  | zero hsign hexponent hmantissa =>
    rw [hsign, hexponent, hmantissa] at hfields
    exact hfields
  | @subnormal s m hsign hexponent hmantissa hm =>
    have hlt : (unpackMantissa b).toNat < 2 ^ 52 := BitVec.isLt _
    have hlog : m.log2 < 52 := (Nat.log2_lt (Nat.ne_of_gt hm)).2 (hmantissa ▸ hlt)
    have hfits : ¬ m.log2 + 1 = 53 := by omega
    have hpack : pack .binary64 (.finite s m (-1074) hm) =
        packComponents .binary64 s 0#11 (BitVec.ofNat 52 m) := if_neg hfits
    rw [hsign, hexponent] at hfields
    rw [hpack, ← hmantissa, BitVec.ofNat_toNat, BitVec.setWidth_eq, hfields]
  | @normal s m e hsign hleast hgreatest hexponent hmantissa hm =>
    have hlt : (unpackMantissa b).toNat < 2 ^ 52 := BitVec.isLt _
    have hlow : (unpackExponent b).toNat ≠ 0 := fun h => hleast (BitVec.eq_of_toNat_eq h)
    have hhigh : (unpackExponent b).toNat ≠ 2047 := fun h => hgreatest (BitVec.eq_of_toNat_eq h)
    have hbound : (unpackExponent b).toNat < 2 ^ 11 := BitVec.isLt _
    have hsignificand : 2 ^ 52 + (unpackMantissa b).toNat = m :=
      (toNat_one_append _).symm.trans hmantissa
    have hlog : m.log2 = 52 := by
      rw [Nat.log2_eq_iff (Nat.ne_of_gt hm)]
      omega
    have hexponent' : BitVec.ofNat 11 (e + 1075).toNat = unpackExponent b := by
      rw [← hexponent, Int.sub_add_cancel, Int.toNat_natCast, BitVec.ofNat_toNat,
        BitVec.setWidth_eq]
    have hmantissa' : BitVec.ofNat 52 m = unpackMantissa b := by
      apply BitVec.eq_of_toNat_eq
      rw [BitVec.toNat_ofNat]
      omega
    rw [hsign] at hfields
    rw [pack_of_normal hm hlog (by omega) (by omega), hexponent', hmantissa', hfields]

/-- What is no number has the same bits in every float. -/
theorem pack_unpack_eq (hb : Format.binary64.Valid b) :
    pack .binary64 (unpack .binary64 b) = b := by
  have hencodes := encodes_unpack b
  by_cases hnumber : unpack .binary64 b = .notANumber
  · rw [hnumber] at hencodes ⊢
    cases hencodes with
    | notANumber hexponent hmantissa => exact (hb.eq_packedNaN hexponent hmantissa).symm
  · exact hencodes.pack_eq hnumber

/-- The bits of a float are determined by what they stand for. -/
theorem unpack_injOn (hb : Format.binary64.Valid b) (hb' : Format.binary64.Valid b')
    (h : unpack .binary64 b = unpack .binary64 b') : b = b' := by
  rw [← pack_unpack_eq hb, h, pack_unpack_eq hb']

/-! ## What is a number -/

/-- A number stays one when it is packed, even if it becomes an infinity. -/
theorem unpack_pack_ne_notANumber (ha : a ≠ .notANumber) :
    unpack .binary64 (pack .binary64 a) ≠ .notANumber := by
  intro h
  have hencodes := encodes_unpack (pack .binary64 a)
  rw [h] at hencodes
  have hfits : ∀ {s : Sign} {e : BitVec 11} {f : BitVec 52}, e ≠ -1#11 ∨ f = 0#52 →
      pack .binary64 a ≠ packComponents .binary64 s e f := by
    intro s e f h hpack
    rw [hpack] at hencodes
    cases hencodes with
    | notANumber hexponent hmantissa =>
      rw [unpackExponent_packComponents] at hexponent
      rw [unpackMantissa_packComponents] at hmantissa
      exact h.elim (fun h => h hexponent) hmantissa
  cases a with
  | notANumber => exact ha rfl
  | infinity s => exact hfits (.inr rfl) rfl
  | zero s => exact hfits (.inr rfl) rfl
  | finite s m e hm =>
    by_cases hlarge : 2 ^ 11 ≤ (e + Format.binary64.exponentBias +
        Format.binary64.mantissaBitsWithoutImplicit).toNat + 1
    · exact hfits (.inr rfl) (if_pos hlarge)
    by_cases hnormal : m.log2 + 1 = 53
    · refine hfits (.inl fun h => ?_) ((if_neg hlarge).trans (if_pos hnormal))
      have hmax := congrArg BitVec.toNat h
      rw [BitVec.toNat_ofNat] at hmax
      change _ % 2048 = 2047 at hmax
      omega
    · refine hfits (.inl ?_) ((if_neg hlarge).trans (if_neg hnormal))
      decide

theorem round_ne_notANumber (s : Sign) (m : Nat) (e : Int) :
    UnpackedFloat.round .binary64 s m e ≠ .notANumber := by
  have hrounded : ∀ (m : Nat) (e : Int), (if h : m = 0 then UnpackedFloat.zero s
      else .finite s m e (Nat.pos_of_ne_zero h)) ≠ .notANumber := by
    intro m e h
    by_cases hm : m = 0
    · rw [dif_pos hm] at h
      cases h
    · rw [dif_neg hm] at h
      cases h
  exact hrounded _ _

/-- The float nearest to an integer is a number. -/
theorem isNaN_ofInt (n : Int) : (ofInt n).isNaN = false := by
  rw [isNaN_eq_false_iff_unpack]
  refine unpack_pack_ne_notANumber (a := UnpackedFloat.ofInt .binary64 n) ?_
  unfold UnpackedFloat.ofInt UnpackedFloat.normalize
  split
  · exact round_ne_notANumber _ _ _
  · exact nofun
  · exact round_ne_notANumber _ _ _

end Splice.Decimal
