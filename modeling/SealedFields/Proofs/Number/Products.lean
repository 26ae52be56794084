import SealedFields.Proofs.Number.Neighbours

/-!
# Products and quotients of floats

The product of two floats is the float nearest to their product, and their quotient the one nearest to their quotient:
the bits that are shifted out, or left over, are remembered as far as rounding asks for them.
-/

namespace SealedFields.Number

open Float.Model
open Float.Model.UnpackedFloat

/-! ## 1. Mantissas that are shifted -/

/-- The extended mantissa tells all of `n / d` that rounding asks for: the whole part, and whether the rest is
none, less than half, half, or more. -/
def Represents (a : ExtendedMantissa) (n d : Nat) : Prop :=
  ∃ r, n = a.mantissa * d + r ∧ r < d ∧ (a.roundBit = true ↔ d ≤ 2 * r) ∧
    (a.stickyBit = true ↔ r ≠ 0 ∧ 2 * r ≠ d)

theorem represents_exact (m : Nat) : Represents (.ofMantissaAndAccuracy m .exact) m 1 :=
  ⟨0, (Nat.mul_one m).symm, by decide, iff_of_false Bool.false_ne_true (by decide),
    iff_of_false Bool.false_ne_true (by decide)⟩

section

variable {a : ExtendedMantissa} {n d : Nat}

theorem Represents.shiftRightOne (h : Represents a n d) : Represents a.shiftRightOne n (d * 2) := by
  obtain ⟨r, whole, less, round, sticky⟩ := h
  -- The lowest bit of the mantissa is half of what is left over.
  have half : a.mantissa * d = a.mantissa / 2 * (d * 2) + a.mantissa % 2 * d := by
    have parts : a.mantissa = a.mantissa / 2 * 2 + a.mantissa % 2 := by omega
    nth_rewrite 1 [parts]
    ring
  refine ⟨a.mantissa % 2 * d + r, ?_, ?_, ?_, ?_⟩
  · show n = a.mantissa / 2 * (d * 2) + (a.mantissa % 2 * d + r)
    omega
  · rcases Nat.mod_two_eq_zero_or_one a.mantissa with even | odd
    · rw [even]
      omega
    · rw [odd]
      omega
  · show (a.mantissa % 2 != 0) = true ↔ _
    rcases Nat.mod_two_eq_zero_or_one a.mantissa with even | odd
    · rw [even]
      simp
      omega
    · rw [odd]
      simp
      omega
  · show (a.roundBit || a.stickyBit) = true ↔ _
    rw [Bool.or_eq_true, round, sticky]
    rcases Nat.mod_two_eq_zero_or_one a.mantissa with even | odd
    · rw [even]
      omega
    · rw [odd]
      omega

theorem Represents.shiftRight (h : Represents a n d) (s : Nat) : Represents (a >>> s) n (d * 2 ^ s) := by
  induction s with
  | zero =>
    rw [pow_zero, mul_one]
    exact h
  | succ s ih =>
    rw [pow_succ, ← mul_assoc]
    exact ih.shiftRightOne

theorem Represents.roundedMantissa (h : Represents a n d) : a.roundedMantissa = roundDiv n d := by
  obtain ⟨r, whole, less, round, sticky⟩ := h
  have quotient : n / d = a.mantissa := Nat.div_eq_of_lt_le (by omega) (by rw [Nat.succ_mul]; omega)
  have rest : n % d = r := by
    rw [whole, Nat.mul_comm, Nat.mul_add_mod, Nat.mod_eq_of_lt less]
  unfold roundDiv
  rw [quotient, rest]
  obtain ⟨q, round?, sticky?⟩ := a
  cases round? <;> cases sticky? <;>
    simp only [ExtendedMantissa.roundedMantissa, ExtendedMantissa.accuracy, Accuracy.roundToNearestEven] <;>
    simp at round sticky <;> split <;> omega

end

open Binary64 (powerOfTwo nearestBits)

section

variable {q n d s : Nat} {e : Int} {accuracy : Accuracy}

theorem mantissa_ofMantissaAndAccuracy (q : Nat) (accuracy : Accuracy) :
    (ExtendedMantissa.ofMantissaAndAccuracy q accuracy).mantissa = q := by
  rcases accuracy with _ | (_ | _ | _) <;> rfl

/-- A quotient is represented by its whole part, and by how the rest compares with a half. -/
theorem represents_fraction (n : Nat) (pos : 0 < d) :
    Represents (.ofMantissaAndAccuracy (n / d) (accuracyOfFraction (n % d) d)) n d := by
  refine ⟨n % d, ?_, Nat.mod_lt n pos, ?_⟩
  · rw [mantissa_ofMantissaAndAccuracy]
    exact (Nat.div_add_mod' n d).symm
  · unfold accuracyOfFraction
    by_cases whole : n % d = 0
    · rw [if_pos whole, whole]
      exact ⟨iff_of_false Bool.false_ne_true (by omega), iff_of_false Bool.false_ne_true (by simp)⟩
    · rw [if_neg whole]
      rcases lt_trichotomy (2 * (n % d)) d with less | half | more
      · rw [compare_lt_iff_lt.2 less]
        exact ⟨iff_of_false Bool.false_ne_true (by omega), iff_of_true rfl (by omega)⟩
      · rw [compare_eq_iff_eq.2 half]
        exact ⟨iff_of_true rfl half.ge, iff_of_false Bool.false_ne_true (by omega)⟩
      · rw [compare_gt_iff_gt.2 more]
        exact ⟨iff_of_true rfl (by omega), iff_of_true rfl (by omega)⟩

theorem Represents.quotient_eq (h : Represents (.ofMantissaAndAccuracy q accuracy) n d) : n / d = q := by
  obtain ⟨r, whole, less, -⟩ := h
  rw [mantissa_ofMantissaAndAccuracy] at whole
  exact Nat.div_eq_of_lt_le (by omega) (by rw [Nat.succ_mul]; omega)

/-- The exponent is raised until 53 bits are left. -/
theorem shiftToTargetExponent_of_bits (bits : q.log2 = 52 + s) (least : -1074 ≤ e + s) :
    shiftToTargetExponent .binary64 q e accuracy = (ExtendedMantissa.ofMantissaAndAccuracy q accuracy >>> s, e + s) := by
  have target : Format.targetExponent .binary64 (totalExponent q e) = e + s := by
    have full : (Format.mantissaBits .binary64 : Int) = 53 := by decide
    have low : Format.minExponent .binary64 = -1074 := by decide
    unfold Format.targetExponent totalExponent
    rw [full, low, bits]
    omega
  have amount : (e + s - e).toNat = s := by omega
  unfold shiftToTargetExponent shiftToExponent
  dsimp only
  rw [target, amount]

/-- A mantissa that is rounded to 53 bits, or up to the power of two after them, has these bits. -/
theorem toNat_pack_round (h : Represents (.ofMantissaAndAccuracy q accuracy) n d) (bits : q.log2 = 52 + s)
    (full : 2 ^ 52 ≤ q) (least : -1074 ≤ e) :
    (UnpackedFloat.pack .binary64 (roundWithAccuracy .binary64 .positive q e accuracy)).toNat
      = min ((e + s + 1074).toNat * 2 ^ 52 + roundDiv n (d * 2 ^ s)) (2047 * 2 ^ 52) := by
  have rounded := (h.shiftRight s).roundedMantissa
  obtain ⟨s₁, bits₁, low, high⟩ := exists_excess full
  obtain rfl : s₁ = s := by omega
  obtain ⟨down, up⟩ := Binary64.roundDiv_bounds n (d * 2 ^ s₁)
  rw [← Nat.div_div_eq_div_mul, h.quotient_eq] at down up
  obtain ⟨s', bits', low', high'⟩ := exists_excess (low.trans down)
  unfold roundWithAccuracy
  rw [shiftToTargetExponent_of_bits bits (by omega)]
  dsimp only
  rw [rounded, shiftToTargetExponent_of_bits bits' (by omega)]
  dsimp only
  have mantissa' : (ExtendedMantissa.ofMantissaAndAccuracy (roundDiv n (d * 2 ^ s₁)) .exact >>> s').mantissa
      = roundDiv n (d * 2 ^ s₁) / 2 ^ s' := mantissa_shiftRight _ _
  simp only [mantissa']
  rw [dif_neg (by omega), toNat_pack ⟨high', by omega, .inl low'⟩]
  generalize roundDiv n (d * 2 ^ s₁) = r at *
  have place : (e + s₁ + s' + 1074).toNat * 2 ^ 52 + r / 2 ^ s' = (e + s₁ + 1074).toNat * 2 ^ 52 + r := by
    by_cases carry : r = 2 ^ 53
    · -- The mantissa was rounded up, and its last zero moves into the exponent.
      rw [carry, Nat.log2_two_pow] at bits'
      obtain rfl : s' = 1 := by omega
      omega
    · have short : r.log2 < 53 := (Nat.log2_lt (by omega)).2 (by omega)
      obtain rfl : s' = 0 := by omega
      omega
  rw [place]
  exact Nat.zero_add _

theorem zpow_add_natCast (e : Int) (s : Nat) : (2 : ℚ) ^ (e + s) = 2 ^ e * 2 ^ s := by
  rw [zpow_add₀ two_ne_zero, zpow_natCast]

/-- A fraction from `2 ^ 52` to `2 ^ 53` times `2 ^ s` is rounded `s` bits above its exponent. -/
theorem exponentFor_scaled (hn : 0 < n) (hd : 0 < d) (most : (n : ℚ) < 2 ^ 53 * (d * 2 ^ s))
    (least : (2 : ℚ) ^ 52 * (d * 2 ^ s) ≤ n) (above : -1074 ≤ e + s) :
    Binary64.exponentFor (n * (powerOfTwo e).1) (d * (powerOfTwo e).2) = e + s := by
  obtain ⟨up, down⟩ := Binary64.powerOfTwo_pos e
  have scaled : ((n * (powerOfTwo e).1 : Nat) : ℚ) = n * (2 ^ e * (powerOfTwo e).2) := by
    rw [Nat.cast_mul, Binary64.powerOfTwo_eq]
    ring
  have unit : (0 : ℚ) < 2 ^ e * (powerOfTwo e).2 := by positivity
  apply Binary64.exponentFor_eq (Nat.mul_pos hn up).ne' (Nat.mul_pos hd down).ne' above
  · rw [scaled, zpow_add_natCast]
    calc (n : ℚ) * (2 ^ e * (powerOfTwo e).2) < 2 ^ 53 * (d * 2 ^ s) * (2 ^ e * (powerOfTwo e).2) := by gcongr
      _ = 2 ^ 53 * (2 ^ e * 2 ^ s) * (d * (powerOfTwo e).2 : Nat) := by
        push_cast
        ring
  · right
    rw [scaled, zpow_add_natCast]
    calc 2 ^ 52 * (2 ^ e * 2 ^ s) * ((d * (powerOfTwo e).2 : Nat) : ℚ)
        = (2 ^ 52 * (d * 2 ^ s) : ℚ) * (2 ^ e * (powerOfTwo e).2) := by
          push_cast
          ring
      _ ≤ n * (2 ^ e * (powerOfTwo e).2) := by gcongr

theorem roundDiv_scaled (hd : 0 < d) (n s : Nat) (e : Int) : roundDiv n (d * 2 ^ s)
    = roundDiv (n * (powerOfTwo e).1 * (powerOfTwo (e + s)).2) (d * (powerOfTwo e).2 * (powerOfTwo (e + s)).1) := by
  apply Binary64.roundDiv_congr (Nat.mul_pos hd (Nat.two_pow_pos s))
    (Nat.mul_pos (Nat.mul_pos hd (Binary64.powerOfTwo_pos e).2) (Binary64.powerOfTwo_pos _).1)
  have same : (n : ℚ) * (d * (powerOfTwo e).2 * (powerOfTwo (e + s)).1)
      = n * (powerOfTwo e).1 * (powerOfTwo (e + s)).2 * (d * 2 ^ s) := by
    rw [Binary64.powerOfTwo_eq, Binary64.powerOfTwo_eq, zpow_add_natCast]
    ring
  exact_mod_cast same

/-- Rounding a long mantissa gives the float nearest to the number that it represents. -/
theorem toNat_pack_round_eq_nearestBits (h : Represents (.ofMantissaAndAccuracy q accuracy) n d) (pos : 0 < d)
    (full : 2 ^ 52 ≤ q) (least : -1074 ≤ e) :
    (UnpackedFloat.pack .binary64 (roundWithAccuracy .binary64 .positive q e accuracy)).toNat
      = nearestBits (n * (powerOfTwo e).1) (d * (powerOfTwo e).2) := by
  obtain ⟨s, bits, low, high⟩ := exists_excess full
  obtain ⟨up, down⟩ := Binary64.powerOfTwo_pos e
  rw [← h.quotient_eq, Nat.div_div_eq_div_mul] at low high
  have hn : 0 < n := Nat.pos_of_ne_zero fun zero => by
    rw [zero, Nat.zero_div] at low
    omega
  have most := (Nat.div_lt_iff_lt_mul (Nat.mul_pos pos (Nat.two_pow_pos s))).1 high
  have least' := (Nat.le_div_iff_mul_le (Nat.mul_pos pos (Nat.two_pow_pos s))).1 low
  have exponent : Binary64.exponentFor (n * (powerOfTwo e).1) (d * (powerOfTwo e).2) = e + s :=
    exponentFor_scaled hn pos (by exact_mod_cast most) (by exact_mod_cast least') (by omega)
  rw [toNat_pack_round h bits full least, Binary64.nearestBits_eq (Nat.mul_pos hn up).ne' (Nat.mul_pos pos down).ne',
    exponent, roundDiv_scaled pos n s e]

end

/-! ## 2. Products -/

variable {x y z : Float} {m m' n d : Nat} {e e' t : Int} {v : ℚ}

/-- A float with the bits of a scaled quotient is the nearest one, unless the quotient is tiny or huge. -/
theorem exists_nearest_scaled (bits : z.toBits.toNat = nearestBits (n * (powerOfTwo t).1) (d * (powerOfTwo t).2))
    (pos : 0 < d) (value : n * (2 : ℚ) ^ t = v * d) (normal : 1 ≤ v * 2 ^ 53) (range : v < Binary64.overflowBound) :
    ∃ mz ez, Binary64.ofFloat z = .finite false mz ez ∧ Binary64.IsNearest mz ez v := by
  have down := Nat.mul_pos pos (Binary64.powerOfTwo_pos t).2
  have value : ((n * (powerOfTwo t).1 : Nat) : ℚ) = v * (d * (powerOfTwo t).2 : Nat) := by
    rw [Nat.cast_mul, Nat.cast_mul, Binary64.powerOfTwo_eq, mul_left_comm, value]
    ring
  have unit : (0 : ℚ) < (d * (powerOfTwo t).2 : Nat) := by exact_mod_cast down
  generalize d * (powerOfTwo t).2 = den at *
  generalize n * (powerOfTwo t).1 = num at *
  apply Binary64.exists_isNearest bits value down.ne'
  · have normal := mul_le_mul_of_nonneg_right normal unit.le
    rw [one_mul, mul_right_comm, ← value] at normal
    exact_mod_cast normal
  · have range := mul_lt_mul_of_pos_right range unit
    rw [← value] at range
    exact_mod_cast range

/-- The bits of a product are those of the float nearest to the exact product. -/
theorem toBits_mul (hx : Binary64.ofFloat x = .finite false m e) (hy : Binary64.ofFloat y = .finite false m' e')
    (full : 2 ^ 52 ≤ m) (pos : 0 < m') (least : -1074 ≤ e + e') :
    (x * y).toBits.toNat = nearestBits (m * m' * (powerOfTwo (e + e')).1) (1 * (powerOfTwo (e + e')).2) := by
  have long : 2 ^ 52 ≤ m * m' := full.trans (Nat.le_mul_of_pos_right m pos)
  rw [← toNat_pack_round_eq_nearestBits (represents_exact (m * m')) Nat.one_pos long least]
  show (UnpackedFloat.pack .binary64 (UnpackedFloat.mul .binary64 x.toModel.unpack y.toModel.unpack)).toNat = _
  rw [unpack_of_finite hx (by omega), unpack_of_finite hy pos]
  rfl

/-- A product that is neither tiny nor huge is the float nearest to the exact one. -/
theorem exists_product (hx : Binary64.ofFloat x = .finite false m e) (hy : Binary64.ofFloat y = .finite false m' e')
    (full : 2 ^ 52 ≤ m) (pos : 0 < m') (least : -1074 ≤ e + e') (normal : 1 ≤ m * 2 ^ e * (m' * (2 : ℚ) ^ e') * 2 ^ 53)
    (range : m * 2 ^ e * (m' * (2 : ℚ) ^ e') < Binary64.overflowBound) :
    ∃ mp ep, Binary64.ofFloat (x * y) = .finite false mp ep ∧ Binary64.IsNearest mp ep (m * 2 ^ e * (m' * 2 ^ e')) := by
  refine exists_nearest_scaled (toBits_mul hx hy full pos least) Nat.one_pos ?_ normal range
  rw [zpow_add₀ two_ne_zero]
  push_cast
  ring

/-! ## 3. Quotients -/

/-- The bits of a quotient are those of the float nearest to the exact quotient. -/
theorem toBits_div (hx : Binary64.ofFloat x = .finite false m e) (hy : Binary64.ofFloat y = .finite false m' e')
    (full : 2 ^ 52 ≤ m) (full' : 2 ^ 52 ≤ m') (least : -1021 ≤ e - e') : (x / y).toBits.toNat
      = nearestBits (m * 2 ^ 53 * (powerOfTwo (e - e' - 53)).1) (m' * (powerOfTwo (e - e' - 53)).2) := by
  obtain ⟨-, ⟨short, -, -⟩, -⟩ := ofBits_eq_finite x.toBits.toBitVec.isLt hx
  obtain ⟨-, ⟨short', -, -⟩, -⟩ := ofBits_eq_finite y.toBits.toBitVec.isLt hy
  have bits : m.log2 = 52 := (Nat.log2_eq_iff (by omega)).2 ⟨full, short⟩
  have bits' : m'.log2 = 52 := (Nat.log2_eq_iff (by omega)).2 ⟨full', short'⟩
  have target : Format.targetExponent .binary64 (totalExponent m e - totalExponent m' e') = e - e' - 53 := by
    have full : (Format.mantissaBits .binary64 : Int) = 53 := by decide
    have low : Format.minExponent .binary64 = -1074 := by decide
    unfold Format.targetExponent totalExponent
    rw [full, low, bits, bits']
    omega
  have least' : min (e - e') (e - e' - 53) = e - e' - 53 := by omega
  have amount : (e - e' - (e - e' - 53)).toNat = 53 := by omega
  have core : divCore .binary64 m e m' e'
      = (m * 2 ^ 53 / m', e - e' - 53, accuracyOfFraction (m * 2 ^ 53 % m') m') := by
    unfold divCore
    rw [target, least']
    dsimp only
    rw [amount, Nat.shiftLeft_eq]
  have long : 2 ^ 52 ≤ m * 2 ^ 53 / m' :=
    (Nat.le_div_iff_mul_le (by omega)).2 (Nat.mul_le_mul full short'.le)
  rw [← toNat_pack_round_eq_nearestBits (represents_fraction (m * 2 ^ 53) (by omega)) (by omega) long (by omega)]
  show (UnpackedFloat.pack .binary64 (UnpackedFloat.div .binary64 x.toModel.unpack y.toModel.unpack)).toNat = _
  rw [unpack_of_finite hx (by omega), unpack_of_finite hy (by omega)]
  show (UnpackedFloat.pack .binary64 (match divCore .binary64 m e m' e' with
    | (q, e, accuracy) => roundWithAccuracy .binary64 .positive q e accuracy)).toNat = _
  rw [core]

/-- A quotient that is neither tiny nor huge is the float nearest to the exact one. -/
theorem exists_quotient (hx : Binary64.ofFloat x = .finite false m e) (hy : Binary64.ofFloat y = .finite false m' e')
    (full : 2 ^ 52 ≤ m) (full' : 2 ^ 52 ≤ m') (least : -1021 ≤ e - e')
    (normal : 1 ≤ m * 2 ^ e / (m' * (2 : ℚ) ^ e') * 2 ^ 53)
    (range : m * 2 ^ e / (m' * (2 : ℚ) ^ e') < Binary64.overflowBound) :
    ∃ mq eq, Binary64.ofFloat (x / y) = .finite false mq eq ∧ Binary64.IsNearest mq eq (m * 2 ^ e / (m' * 2 ^ e')) := by
  refine exists_nearest_scaled (toBits_div hx hy full full' least) (by omega) ?_ normal range
  have some : (m' : ℚ) ≠ 0 := by
    have : (0 : ℚ) < m' := by exact_mod_cast Nat.lt_of_lt_of_le (by decide) full'
    exact this.ne'
  rw [zpow_sub₀ two_ne_zero, zpow_sub₀ two_ne_zero]
  push_cast
  field_simp

end SealedFields.Number
