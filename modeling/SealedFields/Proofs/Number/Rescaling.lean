import SealedFields.Proofs.Number.Whole

/-!
# Numbers scaled by a quotient

A number is scaled by the float nearest to a quotient, the product is rounded again, and its whole part is taken.
As long as the exact product of number and numerator is small, or what it is scaled to a small whole number, this is
the whole part of the exact quotient, or one less: that happens to numbers that are scaled to a whole number, if the
quotient was rounded down by too much.
-/

namespace SealedFields.Number.Rescaling

open Binary64

variable {b t s q k n m mz : Nat} {e ez : Int} {v : ℚ}

/-- The whole part of `b` times `target / source`, as floats have it. -/
def Scaled (b target source q : Nat) : Prop :=
  ∃ m e, IsNearest m e (target / source) ∧ (b = 0 ∧ q = 0 ∨
    ∃ m' e', IsNearest m' e' (b * (m * 2 ^ e)) ∧ (q : ℚ) ≤ m' * 2 ^ e' ∧ (m' : ℚ) * 2 ^ e' < q + 1)

/-- What the rounded quotient lacks, as a part of `source` in units of `2^-k`. -/
def lack (target source k : Nat) : Int := target * 2 ^ k - source * roundDiv (target * 2 ^ k) source

/-- The exact product is whole, and the quotient, whose mantissa has the unit `2^-k`, lacks more than the rounding of
the product makes good. -/
def FallsShort (b target source : Nat) : Prop :=
  source ∣ b * target ∧ ∃ k < 106, 2 ^ 52 * source ≤ target * 2 ^ k ∧ target * 2 ^ k < 2 ^ 53 * source ∧
    (room (b * target / source) * source * 2 ^ ((b * target / source).log2 + k) : Nat)
      < 2 ^ 54 * b * lack target source k

instance (b target source : Nat) : Decidable (FallsShort b target source) :=
  inferInstanceAs (Decidable (_ ∧ ∃ k < 106, _))

/-! ## 1. The quotient -/

theorem exists_scale (hs : 0 < s) (fits : s < 2 ^ 53) (ht : 0 < t) (fits' : t < 2 ^ 53) :
    ∃ k < 106, 2 ^ 52 * s ≤ t * 2 ^ k ∧ t * 2 ^ k < 2 ^ 53 * s := by
  have enough : 2 ^ 52 * s ≤ t * 2 ^ 105 := by omega
  have found : ∃ k, 2 ^ 52 * s ≤ t * 2 ^ k := ⟨105, enough⟩
  have least := Nat.find_min' found enough
  refine ⟨Nat.find found, by omega, Nat.find_spec found, ?_⟩
  rcases Nat.eq_zero_or_pos (Nat.find found) with zero | positive
  · rw [zero]
    omega
  · have before := Nat.find_min found (Nat.sub_one_lt positive.ne')
    have double : t * 2 ^ Nat.find found = 2 * (t * 2 ^ (Nat.find found - 1)) := by
      rw [mul_left_comm, ← pow_succ', Nat.sub_add_cancel positive]
    omega

theorem scale_unique {i j : Nat} (low : 2 ^ 52 * s ≤ t * 2 ^ i) (high : t * 2 ^ j < 2 ^ 53 * s) : j ≤ i := by
  have less : t * 2 ^ j < t * 2 ^ (i + 1) := by
    rw [pow_succ, ← mul_assoc]
    omega
  have less := (Nat.pow_lt_pow_iff_right one_lt_two).1 (Nat.lt_of_mul_lt_mul_left less)
  omega

theorem fallsShort_iff (small : k < 106) (low : 2 ^ 52 * s ≤ t * 2 ^ k) (high : t * 2 ^ k < 2 ^ 53 * s) :
    FallsShort b t s ↔ s ∣ b * t ∧
      (room (b * t / s) * s * 2 ^ ((b * t / s).log2 + k) : Nat) < 2 ^ 54 * b * lack t s k := by
  constructor
  · rintro ⟨divides, i, -, low', high', short⟩
    obtain rfl : i = k := (scale_unique low high').antisymm (scale_unique low' high)
    exact ⟨divides, short⟩
  · exact fun ⟨divides, short⟩ => ⟨divides, k, small, low, high, short⟩

theorem lack_bounds (hs : 0 < s) (t k : Nat) : -s ≤ 2 * lack t s k ∧ 2 * lack t s k ≤ s := by
  obtain ⟨below, above, -⟩ := roundDiv_near (n := t * 2 ^ k) hs
  unfold lack
  generalize roundDiv (t * 2 ^ k) s = r at *
  rw [add_one_mul, mul_assoc] at above
  rw [mul_assoc] at below
  have below : (2 * (r * s) : Int) ≤ 2 * (t * 2 ^ k) + s := by exact_mod_cast below
  have above : (2 * (t * 2 ^ k) : Int) ≤ 2 * (r * s) + s := by exact_mod_cast above
  rw [mul_comm (s : Int)]
  constructor <;> linarith

/-- The float nearest to the quotient, multiplied out. -/
theorem ratio_eq (hs : 0 < s) (ht : 0 < t) (small : k < 106) (low : 2 ^ 52 * s ≤ t * 2 ^ k)
    (high : t * 2 ^ k < 2 ^ 53 * s) (h : IsNearest m e (t / s)) :
    s * ((m : ℚ) * 2 ^ e) * 2 ^ k = t * 2 ^ k - lack t s k := by
  have positive : (0 : ℚ) < s := by exact_mod_cast hs
  have unit : (2 : ℚ) ^ (-(k : Int)) * 2 ^ k = 1 := by
    rw [← zpow_natCast, ← zpow_add₀ two_ne_zero, neg_add_cancel, zpow_zero]
  have value : (t : ℚ) = t / s * s := (div_mul_cancel₀ _ positive.ne').symm
  have fraction : powerOfTwo (-(k : Int)) = (1, 2 ^ k) := by
    unfold powerOfTwo
    rw [neg_neg, Int.toNat_natCast, show (-(k : Int)).toNat = 0 by omega]
    rfl
  have scaled (c : ℚ) : c * 2 ^ (-(k : Int)) * s * 2 ^ k = c * s := by
    rw [mul_right_comm c, mul_assoc, unit, mul_one]
  have below : (t : ℚ) < 2 ^ 53 * 2 ^ (-(k : Int)) * s := by
    apply lt_of_mul_lt_mul_right _ (by positivity : (0 : ℚ) ≤ 2 ^ k)
    rw [scaled]
    exact_mod_cast high
  have above : (2 : ℚ) ^ 52 * 2 ^ (-(k : Int)) * s ≤ t := by
    apply le_of_mul_le_mul_right _ (by positivity : (0 : ℚ) < 2 ^ k)
    rw [scaled]
    exact_mod_cast low
  have same := h.value_eq value ht.ne' hs.ne' (by omega) below above
  rw [fraction] at same
  dsimp only at same
  rw [mul_one] at same
  unfold lack
  rw [same]
  push_cast
  rw [mul_assoc (s : ℚ), mul_assoc _ _ ((2 : ℚ) ^ k), unit]
  ring

/-- The product that is rounded differs from the exact one by a part of it that no float could tell. -/
theorem product_near (hs : 0 < s) (small : k < 106) (low : 2 ^ 52 * s ≤ t * 2 ^ k)
    (high : t * 2 ^ k < 2 ^ 53 * s) (ht : 0 < t) (h : IsNearest m e (t / s)) (b : Nat) :
    (2 ^ 53 - 1) * (b * t : ℚ) ≤ 2 ^ 53 * (s * (b * (m * 2 ^ e))) ∧
      2 ^ 53 * (s * (b * ((m : ℚ) * 2 ^ e))) ≤ (2 ^ 53 + 1) * (b * t) := by
  have unit : (0 : ℚ) < 2 ^ k := by positivity
  have nonneg : (0 : ℚ) ≤ b := Nat.cast_nonneg b
  have product := ratio_eq hs ht small low high h
  generalize (m : ℚ) * 2 ^ e = ratio at *
  obtain ⟨less, more⟩ := lack_bounds hs t k
  have less : (-s : ℚ) ≤ 2 * lack t s k := by exact_mod_cast less
  have more : (2 * lack t s k : ℚ) ≤ s := by exact_mod_cast more
  have low : (2 ^ 52 * s : ℚ) ≤ t * 2 ^ k := by exact_mod_cast low
  have product : b * (s * ratio * 2 ^ k) = b * (t * 2 ^ k - lack t s k) := by rw [product]
  have low := mul_le_mul_of_nonneg_left low nonneg
  constructor
  · have less := mul_le_mul_of_nonneg_left more nonneg
    apply le_of_mul_le_mul_right _ unit
    linarith
  · have more := mul_le_mul_of_nonneg_left less nonneg
    apply le_of_mul_le_mul_right _ unit
    linarith

theorem ratio_bounds (hs : 0 < s) (fits : s < 2 ^ 53) (ht : 0 < t) (fits' : t < 2 ^ 53) (h : IsNearest m e (t / s)) :
    2 ^ (-53 : Int) ≤ (m : ℚ) * 2 ^ e ∧ (m : ℚ) * 2 ^ e ≤ 2 ^ (53 : Int) := by
  have positive : (0 : ℚ) < s := by exact_mod_cast hs
  have one : (1 : ℚ) ≤ s := by exact_mod_cast hs
  have one' : (1 : ℚ) ≤ t := by exact_mod_cast ht
  have fits : (s : ℚ) < 2 ^ 53 := by exact_mod_cast fits
  have fits' : (t : ℚ) < 2 ^ 53 := by exact_mod_cast fits'
  constructor
  · apply h.power_le (by decide) (by decide)
    rw [le_div_iff₀ positive]
    norm_num
    linarith
  · apply h.le_power (by decide) (by decide)
    rw [div_le_iff₀ positive]
    norm_num
    linarith

/-! ## 2. Products -/

section

variable (hs : 0 < s) (small : b * t < 2 ^ 52) (low : (2 ^ 53 - 1) * (b * t : ℚ) ≤ 2 ^ 53 * (s * v))
  (high : 2 ^ 53 * (s * v) ≤ (2 ^ 53 + 1) * (b * t : ℚ)) (hz : IsNearest mz ez v)

include hs small high hz in
/-- The product is not rounded up to the whole number above the quotient. -/
theorem rounded_lt_succ (fits : s < 2 ^ 53) : (mz : ℚ) * 2 ^ ez < (b * t / s : Nat) + 1 := by
  have whole := Nat.div_add_mod (b * t) s
  have rest := Nat.mod_lt (b * t) hs
  generalize b * t / s = n at *
  generalize b * t % s = r at *
  have most : n + 1 ≤ 2 ^ 52 := by
    have : n ≤ s * n := Nat.le_mul_of_pos_left n hs
    omega
  have positive : (0 : ℚ) < s := by exact_mod_cast hs
  have small' : (b * t : ℚ) < 2 ^ 52 := by exact_mod_cast small
  by_contra reached
  have near := (whole_le_rounded_iff hz n.succ_pos most).1 (by push_cast; linarith)
  have near := mul_le_mul_of_nonneg_left near positive.le
  have scaled := room_scaled (n + 1)
  push_cast at near
  rcases Nat.eq_zero_or_pos n with rfl | some
  · -- A quotient below one is so far below it as its denominator allows.
    have gap : s ≤ 2 ^ 52 * (s - b * t) := by omega
    have less : b * t ≤ s := by omega
    have gap : (s : ℚ) ≤ 2 ^ 52 * (s - b * t) := by
      have gap : (s : ℚ) ≤ (2 ^ 52 * (s - b * t) : Nat) := by exact_mod_cast gap
      rw [Nat.cast_mul, Nat.cast_sub less] at gap
      push_cast at gap
      exact gap
    have one : room (0 + 1) * 2 ^ (0 + 1 : Nat).log2 = 1 := by decide
    rw [one] at scaled
    generalize (room (0 + 1) : ℚ) * 2 ^ (((0 + 1 : Nat).log2 : Int) - 52) = c at *
    have scaled := congrArg ((s : ℚ) * ·) scaled
    push_cast at near scaled
    linarith
  · have below : (b * t + 1 : ℚ) ≤ s * (n + 1) := by
      have below : b * t + 1 ≤ s * (n + 1) := by
        rw [mul_add_one]
        omega
      exact_mod_cast below
    have units : (s * n : ℚ) ≤ b * t := by exact_mod_cast (show s * n ≤ b * t by omega)
    have room_le : ((room (n + 1) * 2 ^ (n + 1).log2 : Nat) : ℚ) ≤ 2 * n := by exact_mod_cast room_succ_le some
    rw [← scaled] at room_le
    have room_le := mul_le_mul_of_nonneg_left room_le positive.le
    generalize (room (n + 1) : ℚ) * 2 ^ (((n + 1).log2 : Int) - 52) = c at *
    linarith

include hs small low hz in
/-- The product is not rounded down past the whole part of a quotient that is not whole. -/
theorem le_rounded (ragged : ¬ s ∣ b * t) : ((b * t / s : Nat) : ℚ) ≤ mz * 2 ^ ez := by
  have whole := Nat.div_add_mod (b * t) s
  have rest : b * t % s ≠ 0 := mt Nat.dvd_of_mod_eq_zero ragged
  generalize b * t / s = n at *
  generalize b * t % s = r at *
  have most : n ≤ 2 ^ 52 := by
    have : n ≤ s * n := Nat.le_mul_of_pos_left n hs
    omega
  have positive : (0 : ℚ) < s := by exact_mod_cast hs
  have small : (b * t : ℚ) < 2 ^ 52 := by exact_mod_cast small
  have above : (s * n + 1 : ℚ) ≤ b * t := by exact_mod_cast (show s * n + 1 ≤ b * t by omega)
  apply whole_le_rounded hz most
  apply le_of_mul_le_mul_left _ positive
  linarith

end

/-- A whole quotient is reached without going on to the next one. -/
theorem rounded_lt_succ_of_dvd (hs : 0 < s) (whole : b * t = s * n) (few : n < 2 ^ 52)
    (high : 2 ^ 53 * (s * v) ≤ (2 ^ 53 + 1) * (b * t : ℚ)) (hz : IsNearest mz ez v) : (mz : ℚ) * 2 ^ ez < n + 1 := by
  have positive : (0 : ℚ) < s := by exact_mod_cast hs
  have exact : (b * t : ℚ) = s * n := by exact_mod_cast whole
  have few' : (n : ℚ) ≤ 2 ^ 52 := by exact_mod_cast few.le
  have few' := mul_le_mul_of_nonneg_left few' positive.le
  apply rounded_lt_add_one hz _ few
  apply le_of_mul_le_mul_left _ positive
  linarith

/-- The exact product is whole: it is reached unless the quotient falls short. -/
theorem le_rounded_iff_not_fallsShort (hs : 0 < s) (some : 0 < n) (most : n < 2 ^ 52) (whole : b * t = s * n)
    (product : s * v * 2 ^ k = b * (t * 2 ^ k - lack t s k)) (hz : IsNearest mz ez v) :
    (n : ℚ) ≤ mz * 2 ^ ez ↔ ¬ (room n * s * 2 ^ (n.log2 + k) : Nat) < 2 ^ 54 * b * lack t s k := by
  have positive : (0 : ℚ) < s := by exact_mod_cast hs
  have unit : (0 : ℚ) < 2 ^ k := by positivity
  have exact : (b * t : ℚ) = s * n := by exact_mod_cast whole
  have scaled := room_scaled n
  have cast : ((room n * s * 2 ^ (n.log2 + k) : Nat) : ℚ) = s * 2 ^ k * (room n * 2 ^ n.log2 : Nat) := by
    push_cast
    rw [pow_add]
    ring
  rw [whole_le_rounded_iff hz some most.le, not_lt, ← Int.cast_le (R := ℚ), Int.cast_natCast, cast, ← scaled]
  push_cast
  generalize (room n : ℚ) * 2 ^ ((n.log2 : Int) - 52) = c at *
  have exact : b * t * (2 : ℚ) ^ k = s * n * 2 ^ k := by rw [exact]
  constructor
  · intro near
    have near := mul_le_mul_of_nonneg_left near (mul_pos positive unit).le
    linarith
  · intro near
    apply le_of_mul_le_mul_left _ (mul_pos positive unit)
    linarith

/-! ## 3. Scaling -/

/-- What is scaled is within a part of `2^51` and one of the exact quotient. -/
theorem Scaled.near (h : Scaled b t s q) (hs : 0 < s) (fits : s < 2 ^ 53) (ht : 0 < t) (fits' : t < 2 ^ 53) :
    2 ^ 51 * (s * q) ≤ 2 ^ 51 * (b * t) + b * t ∧ 2 ^ 51 * (b * t) ≤ 2 ^ 51 * (s * (q + 1)) + b * t := by
  obtain ⟨k, scale, least, most⟩ := exists_scale hs fits ht fits'
  obtain ⟨m, e, ratio, ⟨rfl, rfl⟩ | ⟨mz, ez, hz, floor, ceiling⟩⟩ := h
  · omega
  have pos : b ≠ 0 := by
    rintro rfl
    have some := hz.rounds.value_pos hz.pos
    rw [Nat.cast_zero, zero_mul] at some
    exact some.false
  obtain ⟨low, high⟩ := product_near hs scale least most ht ratio b
  have positive : (0 : ℚ) < s := by exact_mod_cast hs
  have some : (1 : ℚ) ≤ b := by exact_mod_cast Nat.pos_of_ne_zero pos
  have tiny : (2 : ℚ) ^ (-1022 : Int) ≤ b * (m * 2 ^ e) := by
    calc (2 : ℚ) ^ (-1022 : Int) ≤ 2 ^ (-53 : Int) := zpow_le_zpow_right₀ one_le_two (by decide)
      _ ≤ m * 2 ^ e := (ratio_bounds hs fits ht fits' ratio).1
      _ ≤ b * (m * 2 ^ e) := le_mul_of_one_le_left (by positivity) some
  obtain ⟨below, above⟩ := hz.relative tiny
  have below := mul_le_mul_of_nonneg_left below positive.le
  have above := mul_le_mul_of_nonneg_left above positive.le
  have floor := mul_le_mul_of_nonneg_left floor positive.le
  have ceiling := mul_le_mul_of_nonneg_left ceiling.le positive.le
  generalize (mz : ℚ) * 2 ^ ez = z at *
  generalize (b : ℚ) * (m * 2 ^ e) = y at *
  have nonneg : (0 : ℚ) ≤ b * t := by positivity
  constructor
  · have bound : (2 ^ 51 * (s * q) : ℚ) ≤ 2 ^ 51 * (b * t) + b * t := by linarith
    exact_mod_cast bound
  · have bound : (2 ^ 51 * (b * t) : ℚ) ≤ 2 ^ 51 * (s * (q + 1)) + b * t := by linarith
    exact_mod_cast bound

/-- As long as the exact product is small, or the quotient is a small whole number, scaling takes the whole part of the
exact quotient, or one less where the quotient falls short. -/
theorem Scaled.eq (h : Scaled b t s q) (hs : 0 < s) (fits : s < 2 ^ 53) (ht : 0 < t) (fits' : t < 2 ^ 53)
    (small : b * t < 2 ^ 52 ∨ s ∣ b * t ∧ b * t < 2 ^ 52 * s) :
    q = b * t / s - if FallsShort b t s then 1 else 0 := by
  obtain ⟨k, scale, least, most⟩ := exists_scale hs fits ht fits'
  obtain ⟨m, e, ratio, ⟨rfl, rfl⟩ | ⟨mz, ez, hz, floor, ceiling⟩⟩ := h
  · rw [Nat.zero_mul, Nat.zero_div, Nat.zero_sub]
  obtain ⟨low, high⟩ := product_near hs scale least most ht ratio b
  have few : b * t / s < 2 ^ 52 := by
    rcases small with small | ⟨-, small⟩
    · exact (Nat.div_le_self _ _).trans_lt small
    · exact (Nat.div_lt_iff_lt_mul hs).2 small
  have reached (h : ((b * t / s : Nat) : ℚ) ≤ mz * 2 ^ ez) : b * t / s ≤ q := by
    have atLeast : b * t / s < q + 1 := by exact_mod_cast h.trans_lt ceiling
    omega
  have passed (h : (mz : ℚ) * 2 ^ ez < (b * t / s : Nat) + 1) : q ≤ b * t / s := by
    have atMost : q < b * t / s + 1 := by exact_mod_cast floor.trans_lt h
    omega
  by_cases divides : s ∣ b * t
  case neg =>
    rw [if_neg fun short => divides short.1]
    have small := small.resolve_right fun h => divides h.1
    exact (passed (rounded_lt_succ hs small high hz fits)).antisymm (reached (le_rounded hs small low hz divides))
  case pos =>
    have whole : b * t = s * (b * t / s) := (Nat.mul_div_cancel' divides).symm
    have passed := passed (rounded_lt_succ_of_dvd hs whole few high hz)
    have fallsShort := fallsShort_iff (b := b) scale least most
    rw [and_iff_right divides] at fallsShort
    rcases Nat.eq_zero_or_pos (b * t / s) with none | some
    · omega
    have product : s * (b * ((m : ℚ) * 2 ^ e)) * 2 ^ k = b * (t * 2 ^ k - lack t s k) := by
      rw [← ratio_eq hs ht scale least most ratio]
      ring
    have exactly := le_rounded_iff_not_fallsShort hs some few whole product hz
    rw [← fallsShort] at exactly
    split
    case isFalse not => exact passed.antisymm (reached (exactly.2 not))
    case isTrue short =>
      -- Rounded down past the whole number, but not past the one below it.
      have missed : q < b * t / s := by exact_mod_cast floor.trans_lt (not_le.1 (mt exactly.1 (not_not.2 short)))
      have previous : ((b * t / s - 1 : Nat) : ℚ) ≤ mz * 2 ^ ez := by
        apply whole_le_rounded hz (by omega)
        have positive : (0 : ℚ) < s := by exact_mod_cast hs
        have exact : (b * t : ℚ) = s * (b * t / s : Nat) := by exact_mod_cast whole
        have few : ((b * t / s : Nat) : ℚ) ≤ 2 ^ 52 := by exact_mod_cast few.le
        have few := mul_le_mul_of_nonneg_left few positive.le
        rw [Nat.cast_sub some, Nat.cast_one]
        apply le_of_mul_le_mul_left _ positive
        linarith
      have atLeast : b * t / s - 1 < q + 1 := by exact_mod_cast previous.trans_lt ceiling
      omega

end SealedFields.Number.Rescaling
