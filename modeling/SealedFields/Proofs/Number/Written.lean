import SealedFields.Number.Reading
import SealedFields.Proofs.Number.Bits
import SealedFields.Proofs.Number.Shortest

/-!
# Decimals that are read as a float

Any decimal among the numbers that are rounded to a float is read as the float. The shortest one is such a decimal.
-/

namespace SealedFields.Number

open Binary64 (nearest nearestBits Rounds)

variable {x : Float} {negative : Bool} {num den m d : Nat} {e k : Int} {v : ℚ}

/-! ## 1. The nearest float -/

theorem nearest_eq (hx : Binary64.ofFloat x = .finite negative m e)
    (bits : nearestBits num den = (e + 1074).toNat * 2 ^ 52 + m) : nearest negative num den = x := by
  obtain ⟨whole, -, -⟩ := ofBits_eq_finite x.toBits.toBitVec.isLt hx
  have whole : x.toBits.toNat = (if negative then 1 else 0) * 2 ^ 63 + ((e + 1074).toNat * 2 ^ 52 + m) := whole
  have same : nearestBits num den + (if negative then Nat.pow 2 63 else 0) = x.toBits.toNat := by
    have sign : Nat.pow 2 63 = 2 ^ 63 := rfl
    rw [bits, whole, sign]
    cases negative
    · simp
    · simp
      omega
  unfold nearest
  rw [same, UInt64.ofNat_toNat, Float.ofBits_toBits]

/-- A number that is rounded to a float is read as the float. -/
theorem nearest_of_rounds (hx : Binary64.ofFloat x = .finite negative m e) (pos : 0 < m) (hd : den ≠ 0)
    (value : (num : ℚ) = v * den) (rounds : Rounds m e v) : nearest negative num den = x := by
  obtain ⟨-, canonical, most⟩ := ofBits_eq_finite x.toBits.toBitVec.isLt hx
  have short := canonical.short
  apply nearest_eq hx
  rw [Binary64.nearestBits_of_rounds value hd canonical pos rounds]
  omega

/-! ## 2. Decimals -/

theorem log2_lt_of_lt {n : Int} (nonneg : 0 < n) (h : (d : ℚ) < 2 ^ n) : (d.log2 : Int) < n := by
  rcases Nat.eq_zero_or_pos d with rfl | some
  · exact nonneg
  · have low : (2 : ℚ) ^ (d.log2 : Int) ≤ d := by exact_mod_cast Nat.log2_self_le some.ne'
    exact (zpow_lt_zpow_iff_right₀ one_lt_two).1 (low.trans_lt h)

/-- What is rounded to a float is neither too small nor too large for one. -/
theorem Binary64.Rounds.range (rounds : Rounds m e v) (canonical : Canonical m e) (pos : 0 < m) (most : e < 972) :
    (2 : ℚ) ^ (-1075 : Int) ≤ v ∧ v < 2 ^ (1024 : Int) := by
  have unit : (0 : ℚ) < 2 ^ e := by positivity
  have half : (Binary64.slack m e : ℚ) ≤ 2 := by exact_mod_cast Binary64.slack_le_two m e
  have positive : (1 : ℚ) ≤ m := by exact_mod_cast pos
  have short : (m : ℚ) + 1 ≤ 2 ^ 53 := by exact_mod_cast canonical.short
  constructor
  · have least : (2 : ℚ) ^ (-1074 : Int) ≤ 2 ^ e := zpow_le_zpow_right₀ one_le_two canonical.least
    have split : (2 : ℚ) ^ (-1074 : Int) = 2 ^ (-1075 : Int) * 2 := by
      rw [← zpow_add_one₀ two_ne_zero]
      rfl
    have low := rounds.low
    generalize (2 : ℚ) ^ (-1074 : Int) = bottom at least split
    have room : (2 : ℚ) * 2 ^ e ≤ (4 * m - Binary64.slack m e) * 2 ^ e := by
      gcongr
      linarith
    linarith
  · have greatest : (2 : ℚ) ^ e ≤ 2 ^ (971 : Int) := zpow_le_zpow_right₀ one_le_two (by omega)
    have split : (2 : ℚ) ^ (1024 : Int) = 2 ^ 53 * 2 ^ (971 : Int) := by
      rw [← zpow_natCast, ← zpow_add₀ two_ne_zero]
      rfl
    have high := rounds.high
    rw [split]
    generalize (2 : ℚ) ^ (971 : Int) = top at greatest
    have room : (4 * m + 2 : ℚ) * 2 ^ e < 4 * 2 ^ 53 * 2 ^ e := by
      gcongr
      linarith
    have wide : (4 * 2 ^ 53 : ℚ) * 2 ^ e ≤ 4 * 2 ^ 53 * top := by gcongr
    linarith

/-- A decimal in that range is read exactly. -/
theorem ofDecimal_eq_nearest (long : d.log2 ≤ 6000) (low : (2 : ℚ) ^ (-1075 : Int) ≤ d * 10 ^ k)
    (high : (d : ℚ) * 10 ^ k < 2 ^ (1024 : Int)) :
    ofDecimal negative d k = nearest negative (d * Nat.pow 10 k.toNat) (Nat.pow 10 (-k).toNat) := by
  have positive : (0 : ℚ) < 2 ^ (-1075 : Int) := by positivity
  have nonzero : d ≠ 0 := by
    rintro rfl
    rw [Nat.cast_zero, zero_mul] at low
    linarith
  have digitsLow : (2 : ℚ) ^ (d.log2 : Int) ≤ d := by exact_mod_cast Nat.log2_self_le nonzero
  have digitsHigh : (d : ℚ) < 2 ^ (d.log2 + 1 : Int) := by exact_mod_cast Nat.lt_log2_self
  have coarse : (2 : ℚ) ^ 93 ≤ 10 ^ 28 := by norm_num
  have tooSmall : 2 * (10 : ℚ) ^ (-399 : Int) ≤ 2 ^ (-1075 : Int) := by
    have far : (2 : ℚ) ^ (1076 : Int) ≤ 10 ^ (399 : Int) :=
      zpow_le_zpow_of_pow two_pos (by norm_num) coarse (by decide) (by decide) (by decide)
    have inverse := (inv_le_inv₀ (by positivity) (by positivity)).2 far
    rw [← zpow_neg, ← zpow_neg] at inverse
    have split : (2 : ℚ) ^ (-1075 : Int) = 2 ^ (-1076 : Int) * 2 := by
      rw [← zpow_add_one₀ two_ne_zero]
      rfl
    rw [split, mul_comm]
    gcongr
  have estimate : Int.ofNat (d.log2 * 30103 / 100000) = (d.log2 : Int) * 30103 / 100000 := rfl
  unfold ofDecimal
  rw [estimate]
  dsimp only
  have notSmall : ¬ (d.log2 : Int) * 30103 / 100000 + k < -400 := by
    intro small
    have digits : (2 : ℚ) ^ (d.log2 : Int) ≤ 10 ^ ((d.log2 : Int) * 30103 / 100000 + 2) :=
      two_zpow_le (by omega) (by omega) (by omega)
    have less : (d : ℚ) * 10 ^ k < 2 ^ (-1075 : Int) := calc
      (d : ℚ) * 10 ^ k < 2 ^ (d.log2 + 1 : Int) * 10 ^ k := by gcongr
      _ ≤ 10 ^ ((d.log2 : Int) * 30103 / 100000 + 2) * 2 * 10 ^ k := by
        rw [zpow_add_one₀ two_ne_zero]
        gcongr
      _ = 2 * 10 ^ ((d.log2 : Int) * 30103 / 100000 + 2 + k) := by
        rw [zpow_add₀ (by norm_num) _ k]
        ring
      _ ≤ 2 * 10 ^ (-399 : Int) := by
        gcongr
        omega
      _ ≤ 2 ^ (-1075 : Int) := tooSmall
    exact absurd low (not_le.2 less)
  have notLarge : ¬ (d.log2 : Int) * 30103 / 100000 + k > 400 := by
    intro large
    have digits : (10 : ℚ) ^ ((d.log2 : Int) * 30103 / 100000) ≤ 2 ^ (d.log2 + 1 : Int) :=
      ten_zpow_le (by omega) (by omega) (by omega)
    have more : (2 : ℚ) ^ (1024 : Int) ≤ d * 10 ^ k := by
      have twice : (2 : ℚ) ^ (1024 : Int) * 2 ≤ d * 10 ^ k * 2 := calc
        (2 : ℚ) ^ (1024 : Int) * 2 = 2 ^ (1025 : Int) := (zpow_add_one₀ two_ne_zero _).symm
        _ ≤ 10 ^ (401 : Int) := zpow_le_zpow_of_pow two_pos (by norm_num) coarse (by decide) (by decide) (by decide)
        _ ≤ 10 ^ ((d.log2 : Int) * 30103 / 100000 + k) := zpow_le_zpow_right₀ (by norm_num) (by omega)
        _ = 10 ^ ((d.log2 : Int) * 30103 / 100000) * 10 ^ k := zpow_add₀ (by norm_num) _ _
        _ ≤ 2 ^ (d.log2 + 1 : Int) * 10 ^ k := by gcongr
        _ = 2 ^ (d.log2 : Int) * 10 ^ k * 2 := by
          rw [zpow_add_one₀ two_ne_zero]
          ring
        _ ≤ d * 10 ^ k * 2 := by gcongr
      linarith
    exact absurd high (not_lt.2 more)
  rw [if_neg (not_or.2 ⟨nonzero, notSmall⟩), if_neg notLarge]

theorem ofDecimal_of_rounds (hx : Binary64.ofFloat x = .finite negative m e) (pos : 0 < m) (long : d.log2 ≤ 6000)
    (rounds : Rounds m e (d * 10 ^ k)) : ofDecimal negative d k = x := by
  obtain ⟨-, canonical, most⟩ := ofBits_eq_finite x.toBits.toBitVec.isLt hx
  obtain ⟨low, high⟩ := rounds.range canonical pos most
  rw [ofDecimal_eq_nearest long low high]
  apply nearest_of_rounds hx pos (powerOfTen_pos _).ne' _ rounds
  rw [Nat.cast_mul, powerOfTen_eq]
  ring

theorem ofDecimal_zero (hx : Binary64.ofFloat x = .finite negative 0 e) (k : Int) : ofDecimal negative 0 k = x := by
  obtain ⟨-, canonical, -⟩ := ofBits_eq_finite x.toBits.toBitVec.isLt hx
  obtain rfl : e = -1074 := canonical.normal.resolve_left (by decide)
  unfold ofDecimal
  dsimp only
  rw [if_pos (.inl rfl)]
  exact nearest_eq hx rfl

/-! ## 3. The shortest decimal -/

/-- The shortest decimal is rounded to the float, and its digits are few enough to be read exactly, with up to
seventeen zeros behind them. -/
theorem shortest_range (hx : Binary64.ofFloat x = .finite negative m e) (pos : 0 < m) :
    0 < (shortest m e).1 ∧ (∀ d ≤ (shortest m e).1 * 10 ^ 17, d.log2 ≤ 6000) ∧
      Rounds m e ((shortest m e).1 * 10 ^ (shortest m e).2) := by
  obtain ⟨-, canonical, most⟩ := ofBits_eq_finite x.toBits.toBitVec.isLt hx
  obtain ⟨last, rounds⟩ := rounds_shortest pos canonical.short canonical.least most
  obtain ⟨low, high⟩ := rounds.range canonical pos most
  generalize (shortest m e).1 = d at *
  generalize (shortest m e).2 = k at *
  refine ⟨?_, ?_, rounds⟩
  · rcases Nat.eq_zero_or_pos d with rfl | positive
    · have bound : (0 : ℚ) < 2 ^ (-1075 : Int) := by positivity
      rw [Nat.cast_zero, zero_mul] at low
      exact absurd low (not_le.2 bound)
    · exact positive
  · have unit : (0 : ℚ) < 10 ^ k := by positivity
    have tens : (10 : ℚ) ^ (-k) ≤ 2 ^ (1600 : Int) := by
      have base : (10 : ℚ) ^ 1 ≤ 2 ^ 4 := by norm_num
      calc (10 : ℚ) ^ (-k) ≤ 10 ^ (400 : Int) := zpow_le_zpow_right₀ (by norm_num) (by omega)
        _ ≤ 2 ^ (1600 : Int) := zpow_le_zpow_of_pow (by norm_num) one_le_two base (by decide) (by decide) (by decide)
    have zeros : (10 : ℚ) ^ 17 ≤ 2 ^ (57 : Int) := by norm_num
    have less : (d : ℚ) * 10 ^ 17 < 2 ^ (6001 : Int) := calc
      (d : ℚ) * 10 ^ 17 = d * 10 ^ k * 10 ^ (-k) * 10 ^ 17 := by
        rw [mul_assoc (d : ℚ), ← zpow_add₀ (by norm_num), add_neg_cancel, zpow_zero, mul_one]
      _ < 2 ^ (1024 : Int) * 10 ^ (-k) * 10 ^ 17 := by gcongr
      _ ≤ 2 ^ (1024 : Int) * 2 ^ (1600 : Int) * 2 ^ (57 : Int) := by gcongr
      _ = 2 ^ (2681 : Int) := by
        rw [← zpow_add₀ two_ne_zero, ← zpow_add₀ two_ne_zero]
        rfl
      _ ≤ 2 ^ (6001 : Int) := zpow_le_zpow_right₀ one_le_two (by decide)
    intro d' within
    have within : (d' : ℚ) ≤ d * 10 ^ 17 := by exact_mod_cast within
    have digits := log2_lt_of_lt (by decide) (within.trans_lt less)
    omega

end SealedFields.Number
