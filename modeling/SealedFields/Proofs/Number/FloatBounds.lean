import Mathlib
import SealedFields.Ciphertext.FloatNoise

/-!
# Lower bounds of floats

Sums and products of 64-bit floats are rounded, but a lower bound that is a small natural number survives:
it is a float itself, and rounding never goes past a float. A float with such a bound is not NaN.
-/

namespace SealedFields.Number

open Float.Model
open Float.Model.UnpackedFloat

/-! ## 1. Bounds -/

/-- `k ≤ m · 2^e`, on naturals. -/
def AtMostScaled (k m : Nat) (e : Int) : Prop := k * 2 ^ (-e).toNat ≤ m * 2 ^ e.toNat

instance (k m : Nat) (e : Int) : Decidable (AtMostScaled k m e) := inferInstanceAs (Decidable (_ ≤ _))

/-- Is the number at least `k`? Positive infinity is, and NaN is not. -/
def UnpackedAtLeast (k : Nat) : UnpackedFloat → Prop
  | .infinity .positive => True
  | .finite .positive m e _ => AtMostScaled k m e
  | _ => False

instance (k : Nat) : DecidablePred (UnpackedAtLeast k)
  | .infinity .positive => inferInstanceAs (Decidable True)
  | .finite .positive m e _ => inferInstanceAs (Decidable (AtMostScaled k m e))
  | .infinity .negative | .finite .negative .. | .zero _ | .notANumber => inferInstanceAs (Decidable False)

def AtLeast (k : Nat) (x : Float) : Prop := UnpackedAtLeast k x.toModel.unpack

instance (k : Nat) (x : Float) : Decidable (AtLeast k x) := inferInstanceAs (Decidable (UnpackedAtLeast k _))

theorem atMostScaled_iff {k m : Nat} {e : Int} : AtMostScaled k m e ↔ (k : ℚ) ≤ m * 2 ^ e := by
  unfold AtMostScaled
  obtain ⟨n, rfl | rfl⟩ := e.eq_nat_or_neg
  · simp only [Int.toNat_neg_natCast, pow_zero, mul_one, Int.toNat_natCast, zpow_natCast]
    norm_cast
  · simp only [neg_neg, Int.toNat_neg_natCast, pow_zero, mul_one, Int.toNat_natCast, zpow_neg, zpow_natCast,
      ← div_eq_mul_inv]
    rw [le_div_iff₀ (by positivity)]
    norm_cast

/-- A short mantissa reaches one only with an exponent above -53. -/
theorem AtMostScaled.exponent_gt {k m : Nat} {e : Int} (h : AtMostScaled k m e) (positive : 0 < k)
    (short : m < 2 ^ 53) : -53 < e := by
  by_contra below
  have zero : e.toNat = 0 := by omega
  have big : 2 ^ 53 ≤ m := calc
    2 ^ 53 ≤ 2 ^ (-e).toNat := Nat.pow_le_pow_right (by decide) (by omega)
    _ ≤ k * 2 ^ (-e).toNat := Nat.le_mul_of_pos_left _ positive
    _ ≤ m * 2 ^ e.toNat := h
    _ = m := by rw [zero, pow_zero, mul_one]
  omega

theorem AtMostScaled.mono {k l m : Nat} {e : Int} (le : k ≤ l) (h : AtMostScaled l m e) : AtMostScaled k m e :=
  (Nat.mul_le_mul_right _ le).trans h

theorem AtLeast.mono {k l : Nat} {x : Float} (le : k ≤ l) (h : AtLeast l x) : AtLeast k x := by
  unfold AtLeast at *
  match x.toModel.unpack, h with
  | .infinity .positive, _ => trivial
  | .finite .positive m e _, h => exact AtMostScaled.mono le h

/-! ## 2. Numbers taken apart -/

/-- The mantissa has 53 bits, fewer only with the least exponent. -/
structure Canonical (m : Nat) (e : Int) : Prop where
  short : m < 2 ^ 53
  least : -1074 ≤ e
  normal : 2 ^ 52 ≤ m ∨ e = -1074

theorem exponentBias_binary64 : (Format.exponentBias .binary64 : Int) = 1023 := by decide

theorem toNat_leading (v : BitVec 52) : (1#1 ++ v).toNat = 2 ^ 52 + v.toNat := by
  rw [BitVec.toNat_append, ← Nat.shiftLeft_add_eq_or_of_lt v.isLt]
  rfl

theorem canonical_unpack {b : BitVec 64} {s : Sign} {m : Nat} {e : Int} {pos : 0 < m}
    (h : UnpackedFloat.unpack .binary64 b = .finite s m e pos) : Canonical m e := by
  unfold UnpackedFloat.unpack at h
  dsimp only at h
  rw [exponentBias_binary64] at h
  have short : (@unpackMantissa .binary64 b).toNat < 2 ^ 52 := BitVec.isLt _
  split at h
  case isTrue => split at h <;> cases h
  case isFalse =>
    split at h
    case isTrue zero =>
      split at h
      case isTrue => cases h
      case isFalse =>
        -- The least exponent, with any mantissa.
        obtain ⟨-, rfl, rfl⟩ := UnpackedFloat.finite.inj h
        rw [zero]
        exact ⟨by omega, by decide, .inr (by decide)⟩
    case isFalse nonzero =>
      obtain ⟨-, rfl, rfl⟩ := UnpackedFloat.finite.inj h
      have positive : (@unpackExponent .binary64 b).toNat ≠ 0 :=
        fun zero => nonzero (BitVec.eq_of_toNat_eq zero)
      rw [toNat_leading]
      exact ⟨by omega, by omega, .inl (Nat.le_add_right _ _)⟩

/-- A number with all its bits is unpacked as it was packed, unless it is too large. -/
theorem unpack_pack_normal {m : Nat} {e : Int} {pos : 0 < m} (low : 2 ^ 52 ≤ m) (high : m < 2 ^ 53)
    (least : -1074 ≤ e) :
    UnpackedFloat.unpack .binary64 (UnpackedFloat.pack .binary64 (.finite .positive m e pos))
        = .infinity .positive ∨
      UnpackedFloat.unpack .binary64 (UnpackedFloat.pack .binary64 (.finite .positive m e pos))
        = .finite .positive m e pos := by
  have bits : m.log2 + 1 = Format.mantissaBits .binary64 := by
    rw [(Nat.log2_eq_iff (by omega)).2 ⟨low, high⟩]
    rfl
  unfold UnpackedFloat.pack
  dsimp only
  rw [exponentBias_binary64, if_pos bits]
  split
  case isTrue => exact .inl rfl
  case isFalse fits =>
    right
    have field : (BitVec.ofNat 11 (e + 1023 + (52 : Nat)).toNat).toNat = (e + 1023 + (52 : Nat)).toNat := by
      rw [BitVec.toNat_ofNat]
      exact Nat.mod_eq_of_lt (by omega)
    have proper : BitVec.ofNat 11 (e + 1023 + (52 : Nat)).toNat ≠ -1#11 := by
      intro h
      rw [h] at field
      have : (-1#11).toNat = 2047 := by decide
      omega
    have nonzero : BitVec.ofNat 11 (e + 1023 + (52 : Nat)).toNat ≠ 0#11 := by
      intro h
      rw [h] at field
      have : (0#11).toNat = 0 := by decide
      omega
    have restored : (1#1 ++ BitVec.ofNat 52 m).toNat = m := by
      rw [toNat_leading, BitVec.toNat_ofNat]
      omega
    have exponent : ((e + 1023 + (52 : Nat)).toNat : Int) - (1023 + (52 : Nat)) = e := by omega
    unfold UnpackedFloat.unpack
    simp only [unpackMantissa_packComponents, unpackExponent_packComponents, unpackSign_packComponents,
      exponentBias_binary64, if_neg proper, if_neg nonzero, field, exponent, restored]
    rfl

/-- A number with a positive bound is infinite, or has all its bits. -/
theorem AtLeast.cases {k : Nat} {x : Float} (h : AtLeast k x) (positive : 0 < k) :
    x.toModel.unpack = .infinity .positive ∨
      ∃ m e pos, x.toModel.unpack = .finite .positive m e pos ∧ 2 ^ 52 ≤ m ∧ Canonical m e ∧
        AtMostScaled k m e := by
  unfold AtLeast at h
  match hx : x.toModel.unpack, h with
  | .infinity .positive, _ => exact .inl rfl
  | .finite .positive m e pos, h =>
    have canonical := canonical_unpack hx
    have above := AtMostScaled.exponent_gt h positive canonical.short
    have normal : 2 ^ 52 ≤ m := canonical.normal.resolve_right (by omega)
    exact .inr ⟨m, e, pos, rfl, normal, canonical, h⟩

/-! ## 3. Rounding -/

theorem mantissa_shiftRight (a : ExtendedMantissa) (s : Nat) : (a >>> s).mantissa = a.mantissa / 2 ^ s := by
  induction s with
  | zero => exact (Nat.div_one _).symm
  | succ s ih =>
    show (a >>> s).mantissa / 2 = _
    rw [ih, Nat.div_div_eq_div_mul, ← Nat.pow_succ]

theorem roundedMantissa_bounds (a : ExtendedMantissa) :
    a.mantissa ≤ a.roundedMantissa ∧ a.roundedMantissa ≤ a.mantissa + 1 := by
  unfold ExtendedMantissa.roundedMantissa
  rcases a.accuracy with _ | (_ | _ | _) <;> simp only [Accuracy.roundToNearestEven] <;> omega

/-- The exponent is raised until 53 bits are left. -/
theorem shiftToTargetExponent_eq {m s : Nat} {e : Int} (bits : m.log2 = 52 + s) (least : -1074 ≤ e + s) :
    (shiftToTargetExponent .binary64 m e .exact).1.mantissa = m / 2 ^ s ∧
      (shiftToTargetExponent .binary64 m e .exact).2 = e + s := by
  have target : Format.targetExponent .binary64 (totalExponent m e) = e + s := by
    have full : (Format.mantissaBits .binary64 : Int) = 53 := by decide
    have low : Format.minExponent .binary64 = -1074 := by decide
    unfold Format.targetExponent totalExponent
    rw [full, low, bits]
    omega
  have amount : (e + s - e).toNat = s := by omega
  unfold shiftToTargetExponent shiftToExponent
  dsimp only
  rw [target, amount, mantissa_shiftRight]
  exact ⟨rfl, rfl⟩

/-- A bound that fits into the mantissa survives the loss of the lowest bits. -/
theorem AtMostScaled.shift {k m s : Nat} {e : Int} (h : AtMostScaled k m e) (fits : k ≤ 2 ^ 53)
    (full : 2 ^ 52 ≤ m / 2 ^ s) : AtMostScaled k (m / 2 ^ s) (e + s) := by
  unfold AtMostScaled at *
  rcases lt_or_ge 0 (e + s) with above | below
  · -- A positive exponent makes any full mantissa large enough.
    have zero : (-(e + s)).toNat = 0 := by omega
    have two : 2 ^ 1 ≤ 2 ^ (e + s).toNat := Nat.pow_le_pow_right (by decide) (by omega)
    calc k * 2 ^ (-(e + s)).toNat = k := by rw [zero, pow_zero, mul_one]
      _ ≤ 2 ^ 52 * 2 ^ 1 := fits
      _ ≤ _ := Nat.mul_le_mul full two
  · have zero : (e + s).toNat = 0 := by omega
    have zero' : e.toNat = 0 := by omega
    have split : (-e).toNat = (-(e + s)).toNat + s := by omega
    rw [zero', split, pow_zero, mul_one, pow_add, ← mul_assoc] at h
    rw [zero, pow_zero, mul_one]
    exact (Nat.le_div_iff_mul_le (by positivity)).2 h

theorem exists_excess {m : Nat} (full : 2 ^ 52 ≤ m) :
    ∃ s, m.log2 = 52 + s ∧ 2 ^ 52 ≤ m / 2 ^ s ∧ m / 2 ^ s < 2 ^ 53 := by
  have nonzero : m ≠ 0 := by omega
  have long : 52 ≤ m.log2 := (Nat.le_log2 nonzero).2 full
  have bits : m.log2 = 52 + (m.log2 - 52) := by omega
  refine ⟨m.log2 - 52, bits, ?_, ?_⟩
  · rw [Nat.le_div_iff_mul_le (by positivity), ← pow_add, ← bits]
    exact Nat.log2_self_le nonzero
  · rw [Nat.div_lt_iff_lt_mul (by positivity), ← pow_add]
    have above := Nat.lt_log2_self (n := m)
    rwa [show 53 + (m.log2 - 52) = m.log2 + 1 by omega]

/-- Rounding keeps a bound, up to 2 to the 53. -/
theorem atLeast_roundWithAccuracy {k m : Nat} {e : Int} (positive : 0 < k) (fits : k ≤ 2 ^ 53)
    (full : 2 ^ 52 ≤ m) (h : AtMostScaled k m e) :
    UnpackedAtLeast k (UnpackedFloat.unpack .binary64
      (UnpackedFloat.pack .binary64 (roundWithAccuracy .binary64 .positive m e .exact))) := by
  obtain ⟨s, bits, low, high⟩ := exists_excess full
  have shifted := h.shift fits low
  have above := shifted.exponent_gt positive high
  have least : -1074 ≤ e + s := by omega
  obtain ⟨mantissa, exponent⟩ := shiftToTargetExponent_eq bits least
  unfold roundWithAccuracy
  generalize shiftToTargetExponent .binary64 m e .exact = first at mantissa exponent
  obtain ⟨a, t⟩ := first
  dsimp only at mantissa exponent ⊢
  subst exponent
  -- Rounding up may make the mantissa too long by one bit, so that it is shifted once more.
  obtain ⟨down, up⟩ := roundedMantissa_bounds a
  have rounded : AtMostScaled k a.roundedMantissa (e + s) :=
    shifted.trans (Nat.mul_le_mul_right _ (mantissa ▸ down))
  obtain ⟨s', bits', low', high'⟩ := exists_excess (low.trans (mantissa ▸ down))
  have least' : -1074 ≤ e + s + s' := by omega
  obtain ⟨mantissa', exponent'⟩ := shiftToTargetExponent_eq bits' least'
  have nonzero : ¬ (shiftToTargetExponent .binary64 a.roundedMantissa (e + s) .exact).1.mantissa = 0 := by
    rw [mantissa']
    omega
  rw [dif_neg nonzero]
  simp only [mantissa', exponent']
  have final := rounded.shift fits low'
  rcases @unpack_pack_normal _ _ (by omega) low' high' least' with infinite | same
  · rw [infinite]
    trivial
  · rw [same]
    exact final

/-! ## 4. Sums and products -/

variable {k l : Nat} {x y : Float}

theorem atLeast_infinity (k : Nat) : UnpackedAtLeast k (UnpackedFloat.unpack .binary64
    (UnpackedFloat.pack .binary64 (.infinity .positive))) := trivial

/-- Aligning a number to a smaller exponent keeps its value. -/
theorem value_decreaseExponent (m : Nat) {e t : Int} (le : t ≤ e) :
    ((decreaseExponent m e t).1 : ℚ) * 2 ^ t = m * 2 ^ e := by
  have split : e = (e - t).toNat + t := by omega
  show ((m <<< (e - t).toNat : Nat) : ℚ) * 2 ^ t = m * 2 ^ e
  rw [Nat.shiftLeft_eq, Nat.cast_mul, Nat.cast_pow, Nat.cast_ofNat, mul_assoc, ← zpow_natCast,
    ← zpow_add₀ two_ne_zero, ← split]

theorem le_decreaseExponent (m : Nat) (e t : Int) : m ≤ (decreaseExponent m e t).1 := by
  show m ≤ m <<< (e - t).toNat
  rw [Nat.shiftLeft_eq]
  exact Nat.le_mul_of_pos_right m (by positivity)

/-- A long mantissa is rounded as it is. -/
theorem normalize_of_long {m : Nat} {e : Int} (long : 2 ^ 53 ≤ m) :
    UnpackedFloat.normalize .binary64 m e .positive = roundWithAccuracy .binary64 .positive m e .exact := by
  have positive : compare (m : Int) 0 = .gt := by
    rw [compare_gt_iff_gt]
    omega
  have bits : 53 ≤ m.log2 := (Nat.le_log2 (by omega)).2 long
  have unchanged : (e - Format.targetExponent .binary64 (totalExponent m e)).toNat = 0 := by
    have full : (Format.mantissaBits .binary64 : Int) = 53 := by decide
    unfold Format.targetExponent totalExponent
    rw [full]
    omega
  unfold UnpackedFloat.normalize UnpackedFloat.round decreaseExponent
  rw [positive]
  dsimp only
  rw [Int.toNat_natCast, unchanged, Nat.shiftLeft_zero, Int.natCast_zero, Int.sub_zero]

theorem AtLeast.mul (hx : AtLeast k x) (hy : AtLeast l y) (hk : 0 < k) (hl : 0 < l)
    (fits : k * l ≤ 2 ^ 53) : AtLeast (k * l) (x * y) := by
  show UnpackedAtLeast (k * l) (UnpackedFloat.unpack .binary64 (UnpackedFloat.pack .binary64
    (UnpackedFloat.mul .binary64 x.toModel.unpack y.toModel.unpack)))
  rcases hx.cases hk with hx | ⟨m, e, pos, hx, full, -, scaled⟩ <;>
    rcases hy.cases hl with hy | ⟨m', e', pos', hy, full', -, scaled'⟩ <;> rw [hx, hy]
  · exact atLeast_infinity _
  · exact atLeast_infinity _
  · exact atLeast_infinity _
  · apply atLeast_roundWithAccuracy (Nat.mul_pos hk hl) fits
    · exact full.trans (Nat.le_mul_of_pos_right m pos')
    · rw [atMostScaled_iff] at *
      rw [zpow_add₀ two_ne_zero, Nat.cast_mul, Nat.cast_mul, mul_mul_mul_comm]
      exact mul_le_mul scaled scaled' (Nat.cast_nonneg l) (by positivity)

theorem AtLeast.add (hx : AtLeast k x) (hy : AtLeast l y) (hk : 0 < k) (hl : 0 < l)
    (fits : k + l ≤ 2 ^ 53) : AtLeast (k + l) (x + y) := by
  show UnpackedAtLeast (k + l) (UnpackedFloat.unpack .binary64 (UnpackedFloat.pack .binary64
    (UnpackedFloat.add .binary64 x.toModel.unpack y.toModel.unpack)))
  rcases hx.cases hk with hx | ⟨m, e, pos, hx, full, -, scaled⟩ <;>
    rcases hy.cases hl with hy | ⟨m', e', pos', hy, full', -, scaled'⟩ <;> rw [hx, hy]
  · exact atLeast_infinity _
  · exact atLeast_infinity _
  · exact atLeast_infinity _
  · -- Both are aligned to the smaller exponent, and their sum has more than 53 bits.
    show UnpackedAtLeast (k + l) (UnpackedFloat.unpack .binary64 (UnpackedFloat.pack .binary64
      (UnpackedFloat.normalize .binary64
        (((decreaseExponent m e (min e e')).1 + (decreaseExponent m' e' (min e e')).1 : Nat) : Int)
        (min e e') .positive)))
    have first := le_decreaseExponent m e (min e e')
    have second := le_decreaseExponent m' e' (min e e')
    rw [normalize_of_long (by omega)]
    apply atLeast_roundWithAccuracy (Nat.add_pos_left hk l) fits (by omega)
    rw [atMostScaled_iff] at *
    rw [Nat.cast_add, Nat.cast_add, add_mul, value_decreaseExponent m (min_le_left e e'),
      value_decreaseExponent m' (min_le_right e e')]
    exact add_le_add scaled scaled'

/-! ## 5. Order -/

theorem le_iff : x ≤ y ↔ (x.toModel.unpack.compare y.toModel.unpack).any (·.isLE) = true := decide_eq_true_iff

theorem lt_iff : x < y ↔ (x.toModel.unpack.compare y.toModel.unpack == some .lt) = true := decide_eq_true_iff

theorem le_of_lt (h : x < y) : x ≤ y := by
  rw [lt_iff, beq_iff_eq] at h
  rw [le_iff, h]
  rfl

theorem compare_swap (u v : UnpackedFloat) : v.compare u = (u.compare v).map Ordering.swap := by
  have same (m m' : Nat) (e e' : Int) :
      (compare e' e).then (compare m' m) = ((compare e e').then (compare m m')).swap := by
    rw [Ordering.swap_then, ← Std.OrientedOrd.eq_swap, ← Std.OrientedOrd.eq_swap]
  -- Only two numbers of one sign are compared by what they consist of.
  rcases u with (_ | _) | _ | (_ | _) | ⟨_ | _, m, e, _⟩ <;>
    rcases v with (_ | _) | _ | (_ | _) | ⟨_ | _, m', e', _⟩
  all_goals first
    | rfl
    | exact congrArg some (congrArg Ordering.swap (same m m' e e'))
    | exact congrArg some (same m m' e e')

theorem exists_compare {u v : UnpackedFloat} (hu : u.isNaN = false) (hv : v.isNaN = false) :
    ∃ o, u.compare v = some o := by
  rcases u with (_ | _) | _ | (_ | _) | ⟨_ | _, m, e, _⟩ <;>
    rcases v with (_ | _) | _ | (_ | _) | ⟨_ | _, m', e', _⟩
  all_goals first
    | exact ⟨_, rfl⟩
    | exact Bool.noConfusion hu
    | exact Bool.noConfusion hv

/-- Only NaN escapes the order. -/
theorem le_or_lt (hx : x.isNaN = false) (hy : y.isNaN = false) : x ≤ y ∨ y < x := by
  obtain ⟨o, ho⟩ := exists_compare (u := x.toModel.unpack) (v := y.toModel.unpack) hx hy
  rw [le_iff, lt_iff, compare_swap x.toModel.unpack, ho]
  cases o <;> decide

theorem isNaN_of_le (h : x ≤ y) : x.isNaN = false ∧ y.isNaN = false := by
  rw [le_iff] at h
  show x.toModel.unpack.isNaN = false ∧ y.toModel.unpack.isNaN = false
  generalize x.toModel.unpack = u at h ⊢
  generalize y.toModel.unpack = v at h ⊢
  -- NaN compares with nothing.
  cases u with
  | notANumber => cases h
  | infinity | zero | finite =>
    cases v with
    | notANumber => cases h
    | infinity | zero | finite => exact ⟨rfl, rfl⟩

theorem le_self (number : x.isNaN = false) : x ≤ x := (le_or_lt number number).elim id le_of_lt

theorem AtLeast.isNaN (h : AtLeast k x) : x.isNaN = false := by
  show x.toModel.unpack.isNaN = false
  unfold AtLeast at h
  match x.toModel.unpack, h with
  | .infinity .positive, _ => rfl
  | .finite .positive _ _ _, _ => rfl

/-- Numbers are compared by exponent first, which orders them by value. -/
theorem AtMostScaled.of_compare {m m' : Nat} {e e' : Int} (h : AtMostScaled k m e) (canonical : Canonical m e)
    (canonical' : Canonical m' e') (le : ((compare e e').then (compare m m')).isLE = true) :
    AtMostScaled k m' e' := by
  rw [atMostScaled_iff] at *
  rcases lt_trichotomy e e' with less | rfl | more
  · -- The greater exponent is not the least one, and its mantissa is full.
    have least := canonical.least
    have full : 2 ^ 52 ≤ m' := canonical'.normal.resolve_right (by omega)
    calc (k : ℚ) ≤ m * 2 ^ e := h
      _ ≤ 2 ^ 53 * 2 ^ e := by
        gcongr
        exact_mod_cast canonical.short.le
      _ = 2 ^ 52 * 2 ^ (e + 1) := by
        rw [zpow_add_one₀ two_ne_zero]
        ring
      _ ≤ m' * 2 ^ e' := by
        gcongr
        · exact_mod_cast full
        · exact one_le_two
        · omega
  · have le' : m ≤ m' := by
      rw [compare_eq_iff_eq.2 rfl, Ordering.eq_then, Nat.isLE_compare] at le
      exact le
    exact h.trans (by gcongr)
  · rw [compare_gt_iff_gt.2 more] at le
    cases le

theorem AtLeast.of_le (h : AtLeast k x) (positive : 0 < k) (le : x ≤ y) : AtLeast k y := by
  rw [le_iff] at le
  unfold AtLeast
  rcases h.cases positive with hx | ⟨m, e, pos, hx, full, canonical, scaled⟩ <;> rw [hx] at le
  · match y.toModel.unpack, le with
    | .infinity .positive, _ => trivial
  · match hy : y.toModel.unpack, le with
    | .infinity .positive, _ => trivial
    | .finite .positive m' e' _, le => exact scaled.of_compare canonical (canonical_unpack hy) le

theorem AtLeast.not_lt (h : AtLeast k x) (positive : 0 < k) (lacks : ¬ AtLeast k y) : ¬ x < y :=
  fun less => lacks (h.of_le positive (le_of_lt less))

/-- A number that lacks a bound lies below every one that has it. -/
theorem AtLeast.lt (h : AtLeast k x) (positive : 0 < k) (hy : y.isNaN = false) (lacks : ¬ AtLeast k y) :
    y < x :=
  (le_or_lt h.isNaN hy).resolve_left fun le => lacks (h.of_le positive le)

end SealedFields.Number
