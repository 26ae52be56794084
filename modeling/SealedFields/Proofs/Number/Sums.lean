import SealedFields.Proofs.Number.Power
import SealedFields.Proofs.Number.Products

/-!
# Sums and differences of floats

Two floats are aligned to the smaller of their exponents, so that what is rounded is their exact sum or difference,
however many bits it has.
-/

namespace SealedFields.Number

open Float.Model
open Float.Model.UnpackedFloat

variable {x y z : Float} {m m' n : Nat} {e e' t : Int}

theorem pos_of_value_pos {m : Nat} {e : Int} (positive : 0 < (m : ℚ) * 2 ^ e) : 0 < m := by
  have unit : (0 : ℚ) < 2 ^ e := by positivity
  exact_mod_cast pos_of_mul_pos_left positive unit.le

/-! ## 1. Normalized mantissas -/

theorem two_pow_le_normalized (pos : 0 < n) : 2 ^ 52 ≤ n * 2 ^ (52 - n.log2) := by
  have low := Nat.log2_self_le pos.ne'
  calc 2 ^ 52 ≤ 2 ^ n.log2 * 2 ^ (52 - n.log2) := by
        rw [← pow_add]
        exact Nat.pow_le_pow_right Nat.two_pos (by omega)
    _ ≤ n * 2 ^ (52 - n.log2) := Nat.mul_le_mul_right _ low

/-- A mantissa that is too short is filled up with zeros before it is rounded. -/
theorem normalize_eq (pos : 0 < n) (least : -1022 ≤ t) :
    UnpackedFloat.normalize .binary64 n t .positive = roundWithAccuracy .binary64 .positive (n * 2 ^ (52 - n.log2))
      (t - (52 - n.log2 : Nat)) .exact := by
  have positive : compare (n : Int) 0 = .gt := by
    rw [compare_gt_iff_gt]
    omega
  have amount : (t - Format.targetExponent .binary64 (totalExponent n t)).toNat = 52 - n.log2 := by
    have full : (Format.mantissaBits .binary64 : Int) = 53 := by decide
    have low : Format.minExponent .binary64 = -1074 := by decide
    unfold Format.targetExponent totalExponent
    rw [full, low]
    omega
  unfold UnpackedFloat.normalize UnpackedFloat.round decreaseExponent
  rw [positive]
  dsimp only
  rw [Int.toNat_natCast, amount, Nat.shiftLeft_eq]

/-- A normalized number is the float nearest to it, unless it is tiny or huge. -/
theorem exists_normalized
    (bits : z.toBits.toNat = (UnpackedFloat.pack .binary64 (UnpackedFloat.normalize .binary64 n t .positive)).toNat)
    (pos : 0 < n) (least : -53 ≤ t) (range : n * (2 : ℚ) ^ t < Binary64.overflowBound) :
    ∃ mz ez, Binary64.ofFloat z = .finite false mz ez ∧ Binary64.IsNearest mz ez (n * 2 ^ t) := by
  rw [normalize_eq pos (by omega), toNat_pack_round_eq_nearestBits (represents_exact _) Nat.one_pos
    (two_pow_le_normalized pos) (by omega)] at bits
  refine exists_nearest_scaled bits Nat.one_pos ?_ ?_ range
  · have filled : t = (52 - n.log2 : Nat) + (t - (52 - n.log2 : Nat)) := by omega
    nth_rewrite 2 [filled]
    rw [zpow_add₀ two_ne_zero, zpow_natCast]
    push_cast
    ring
  · calc (1 : ℚ) = 1 * 2 ^ (-53 : Int) * 2 ^ 53 := by norm_num
      _ ≤ n * 2 ^ t * 2 ^ 53 := by
        gcongr
        · exact_mod_cast pos
        · exact one_le_two

/-- Natural numbers of at most 53 bits are taken over as they are. -/
theorem ofFloat_toFloat (pos : 0 < n) (short : n < 2 ^ 53) :
    Binary64.ofFloat n.toFloat = .finite false (n * 2 ^ (52 - n.log2)) (n.log2 - 52) := by
  obtain ⟨low, high⟩ := Binary64.full_mantissa pos short
  have digits : n.log2 < 53 := (Nat.log2_lt pos.ne').2 short
  have value := Binary64.scaled_eq (i := n.log2) (j := 52) (by omega) n
  rw [Nat.cast_ofNat] at value
  have self := Binary64.isNearest_self (m := n * 2 ^ (52 - n.log2)) (e := n.log2 - 52) ⟨high, by omega, .inl low⟩
    (by omega) (by omega)
  rw [value] at self
  have number : (1 : ℚ) ≤ n := by exact_mod_cast pos
  have huge : (n : ℚ) < Binary64.overflowBound := by exact_mod_cast Binary64.lt_overflowBound short
  -- A word of 64 bits is normalized, and then scaled by the power of ten that it has none of.
  have word : n.toUInt64.toFloat.toBits.toNat
      = (UnpackedFloat.pack .binary64 (UnpackedFloat.normalize .binary64 n 0 .positive)).toNat := by
    have whole : n.toUInt64.toNat = n := Nat.mod_eq_of_lt (by omega)
    show (UnpackedFloat.pack .binary64 (UnpackedFloat.normalize .binary64 n.toUInt64.toNat 0 .positive)).toNat = _
    rw [whole]
  have scaled : n.toFloat = n.toUInt64.toFloat * 1.0 := by
    show Float.ofScientific n false 0 = _
    unfold Float.ofScientific
    rw [dif_pos ⟨short, by decide⟩]
    rfl
  obtain ⟨m, e, parts, nearest⟩ := exists_normalized word pos (by decide) (by rwa [zpow_zero, mul_one])
  rw [zpow_zero, mul_one] at nearest
  obtain ⟨rfl, rfl⟩ := nearest.unique self
  have one : Binary64.ofFloat 1.0 = .finite false (2 ^ 52) (-52) := by rfl
  have unit : ((2 ^ 52 : Nat) : ℚ) * 2 ^ (-52 : Int) = 1 := by norm_num
  obtain ⟨m, e, parts, nearest⟩ := exists_product parts one low (by decide) (by omega)
    (by rw [value, unit]; linarith) (by rw [value, unit]; linarith)
  rw [value, unit, mul_one] at nearest
  obtain ⟨rfl, rfl⟩ := nearest.unique self
  rw [scaled, parts]

/-! ## 2. Sums -/

/-- A sum that is not huge is the float nearest to the exact one. -/
theorem exists_sum (hx : Binary64.ofFloat x = .finite false m e) (hy : Binary64.ofFloat y = .finite false m' e')
    (pos : 0 < m) (pos' : 0 < m') (least : -53 ≤ e) (least' : -53 ≤ e')
    (range : m * (2 : ℚ) ^ e + m' * 2 ^ e' < Binary64.overflowBound) :
    ∃ ms es, Binary64.ofFloat (x + y) = .finite false ms es ∧ Binary64.IsNearest ms es (m * 2 ^ e + m' * 2 ^ e') := by
  have bits : (x + y).toBits.toNat = (UnpackedFloat.pack .binary64 (UnpackedFloat.normalize .binary64
      (((decreaseExponent m e (min e e')).1 + (decreaseExponent m' e' (min e e')).1 : Nat) : Int)
      (min e e') .positive)).toNat := by
    show (UnpackedFloat.pack .binary64 (UnpackedFloat.add .binary64 x.toModel.unpack y.toModel.unpack)).toNat = _
    rw [unpack_of_finite hx pos, unpack_of_finite hy pos']
    rfl
  have first := le_decreaseExponent m e (min e e')
  have value : (((decreaseExponent m e (min e e')).1 + (decreaseExponent m' e' (min e e')).1 : Nat) : ℚ)
      * 2 ^ min e e' = m * 2 ^ e + m' * 2 ^ e' := by
    rw [Nat.cast_add, add_mul, value_decreaseExponent m (min_le_left e e'),
      value_decreaseExponent m' (min_le_right e e')]
  rw [← value] at range ⊢
  exact exists_normalized bits (by omega) (by omega) range

/-! ## 3. Differences -/

/-- A difference above zero is the float nearest to the exact one. -/
theorem exists_difference (hx : Binary64.ofFloat x = .finite false m e) (hy : Binary64.ofFloat y = .finite false m' e')
    (pos' : 0 < m') (least : -53 ≤ e) (least' : -53 ≤ e') (less : m' * (2 : ℚ) ^ e' < m * 2 ^ e)
    (range : m * (2 : ℚ) ^ e < Binary64.overflowBound) :
    ∃ md ed, Binary64.ofFloat (x - y) = .finite false md ed ∧ Binary64.IsNearest md ed (m * 2 ^ e - m' * 2 ^ e') := by
  have pos : 0 < m := pos_of_value_pos (lt_of_le_of_lt (by positivity) less)
  have unit : (0 : ℚ) < 2 ^ min e e' := by positivity
  have value := value_decreaseExponent m (min_le_left e e')
  have value' := value_decreaseExponent m' (min_le_right e e')
  have apart : (decreaseExponent m' e' (min e e')).1 < (decreaseExponent m e (min e e')).1 := by
    rw [← value, ← value'] at less
    exact_mod_cast lt_of_mul_lt_mul_right less unit.le
  have bits : (x - y).toBits.toNat = (UnpackedFloat.pack .binary64 (UnpackedFloat.normalize .binary64
      (((decreaseExponent m e (min e e')).1 - (decreaseExponent m' e' (min e e')).1 : Nat) : Int)
      (min e e') .positive)).toNat := by
    show (UnpackedFloat.pack .binary64 (UnpackedFloat.sub .binary64 x.toModel.unpack y.toModel.unpack)).toNat = _
    rw [unpack_of_finite hx pos, unpack_of_finite hy pos', Nat.cast_sub apart.le]
    rfl
  have value : (((decreaseExponent m e (min e e')).1 - (decreaseExponent m' e' (min e e')).1 : Nat) : ℚ)
      * 2 ^ min e e' = m * 2 ^ e - m' * 2 ^ e' := by
    rw [Nat.cast_sub apart.le, sub_mul, value, value']
  have positive : (0 : ℚ) ≤ m' * 2 ^ e' := by positivity
  rw [← value]
  apply exists_normalized bits (by omega) (by omega)
  rw [value]
  linarith

/-! ## 4. Errors -/

theorem toBits_of_finite (hx : Binary64.ofFloat x = .finite false m e) :
    FromZero x ∧ x.toBits.toNat = (e + 1074).toNat * 2 ^ 52 + m ∧ Canonical m e := by
  obtain ⟨bits, canonical, most⟩ := ofBits_eq_finite x.toBits.toBitVec.isLt hx
  have sign : (if false then 1 else 0) = 0 := rfl
  have short := canonical.short
  have bits : x.toBits.toNat = (e + 1074).toNat * 2 ^ 52 + m := bits.trans (by omega)
  refine ⟨?_, bits, canonical⟩
  unfold FromZero
  omega

/-- No two floats from zero up stand for the same number. -/
theorem eq_of_value (hx : Binary64.ofFloat x = .finite false m e) (hy : Binary64.ofFloat y = .finite false m' e')
    (same : (m : ℚ) * 2 ^ e = m' * 2 ^ e') : x = y := by
  obtain ⟨-, bits, canonical⟩ := toBits_of_finite hx
  obtain ⟨-, bits', canonical'⟩ := toBits_of_finite hy
  obtain rfl : e = e' := (Binary64.exponent_le_of_value_le canonical canonical' same.le).antisymm
    (Binary64.exponent_le_of_value_le canonical' canonical same.ge)
  have unit : (2 : ℚ) ^ e ≠ 0 := by positivity
  obtain rfl : m = m' := by exact_mod_cast mul_right_cancel₀ unit same
  exact eq_of_toBits (bits.trans bits'.symm)

/-- Floats from zero up are ordered by what they stand for. -/
theorem lt_iff_value (hx : Binary64.ofFloat x = .finite false m e) (hy : Binary64.ofFloat y = .finite false m' e') :
    x < y ↔ (m : ℚ) * 2 ^ e < m' * 2 ^ e' := by
  obtain ⟨fromZero, bits, canonical⟩ := toBits_of_finite hx
  obtain ⟨fromZero', bits', canonical'⟩ := toBits_of_finite hy
  rw [lt_iff_toBits fromZero fromZero']
  constructor
  · intro less
    refine (Binary64.value_le_of_bits_le canonical canonical' (by omega)).lt_of_ne fun same => ?_
    rw [eq_of_value hx hy same] at less
    exact lt_irrefl _ less
  · intro less
    by_contra not
    exact absurd less (Binary64.value_le_of_bits_le canonical' canonical (by omega)).not_gt

/-- Numbers from one up have no small exponent. -/
theorem exponent_gt_of_one_le (hx : Binary64.ofFloat x = .finite false m e) (one : 1 ≤ (m : ℚ) * 2 ^ e) :
    -53 < e := by
  obtain ⟨-, -, canonical⟩ := toBits_of_finite hx
  have scaled : AtMostScaled 1 m e := by
    rw [atMostScaled_iff, Nat.cast_one]
    exact one
  exact scaled.exponent_gt Nat.one_pos canonical.short

/-- Numbers that are not tiny have all their bits, with an exponent above the least. -/
theorem Canonical.full_of_le (canonical : Canonical m e) (least : 2 ^ (-1021 : Int) ≤ (m : ℚ) * 2 ^ e) :
    2 ^ 52 ≤ m ∧ -1074 < e := by
  have above : e ≠ -1074 := by
    rintro rfl
    have short : (m : ℚ) < 2 ^ 53 := by exact_mod_cast canonical.short
    have below : (m : ℚ) * 2 ^ (-1074 : Int) < 2 ^ 53 * 2 ^ (-1074 : Int) := by gcongr
    rw [← zpow_natCast, ← zpow_add₀ two_ne_zero] at below
    exact absurd least (not_le.2 below)
  have low := canonical.least
  exact ⟨canonical.normal.resolve_right above, by omega⟩

/-- The float is a number from one up, and at most `ε` away from `v`. -/
def Near (x : Float) (v ε : ℚ) : Prop :=
  ∃ m e, Binary64.ofFloat x = .finite false m e ∧ 1 ≤ (m : ℚ) * 2 ^ e ∧ |(m : ℚ) * 2 ^ e - v| ≤ ε

variable {v w ε δ : ℚ}

theorem Near.mono (h : Near x v ε) (le : ε ≤ δ) : Near x v δ := by
  obtain ⟨m, e, parts, one, close⟩ := h
  exact ⟨m, e, parts, one, close.trans le⟩

/-- The nearest float is no more than half a unit away. -/
theorem near_of_isNearest (hx : Binary64.ofFloat x = .finite false m e) (h : Binary64.IsNearest m e v) (least : 2 ≤ v)
    (most : v ≤ 127) : Near x v (2 ^ (-46 : Int)) := by
  have tiny : (2 : ℚ) ^ (-1022 : Int) ≤ 1 := zpow_le_one_of_nonpos₀ one_le_two (by decide)
  obtain ⟨low, high⟩ := h.relative (by linarith)
  refine ⟨m, e, hx, by linarith, ?_⟩
  rw [abs_le]
  norm_num
  constructor <;> linarith

/-- Errors add up, and the rounding of the sum comes to them. -/
theorem Near.add (hx : Near x v ε) (hy : Near y w δ) (most : v + ε + (w + δ) ≤ 127) :
    Near (x + y) (v + w) (ε + δ + 2 ^ (-46 : Int)) := by
  obtain ⟨m, e, hx, one, close⟩ := hx
  obtain ⟨m', e', hy, one', close'⟩ := hy
  rw [abs_le] at close close'
  have huge : (127 : ℚ) < Binary64.overflowBound := by exact_mod_cast Binary64.lt_overflowBound (by decide)
  obtain ⟨ms, es, sum, nearest⟩ := exists_sum hx hy (pos_of_value_pos (one_pos.trans_le one))
    (pos_of_value_pos (one_pos.trans_le one'))
    (exponent_gt_of_one_le hx one).le (exponent_gt_of_one_le hy one').le (by linarith)
  obtain ⟨ms', es', again, one'', rounded⟩ := near_of_isNearest sum nearest (by linarith) (by linarith)
  refine ⟨ms', es', again, one'', ?_⟩
  rw [abs_le] at rounded ⊢
  constructor <;> linarith

end SealedFields.Number
