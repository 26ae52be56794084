import Mathlib.Algebra.Order.Field.Power
import Mathlib.Tactic.Linarith
import Mathlib.Tactic.NormNum
import Mathlib.Tactic.Positivity
import Mathlib.Tactic.Ring
import SealedFields.Number.Binary64

/-!
# Quotients that are too large

A quotient is rounded to infinity from half a unit above the greatest float on. From there on it has no float.
-/

namespace SealedFields.Number.Binary64

/-- Half a unit above the greatest float. -/
def overflowBound : Nat := (2 ^ 54 - 1) * 2 ^ 970

theorem overflowBound_eq : (overflowBound : ℚ) = (2 ^ 54 - 1) * 2 ^ (970 : Int) := by
  unfold overflowBound
  rw [Nat.cast_mul, Nat.cast_pow, Nat.cast_sub Nat.one_le_two_pow, Nat.cast_pow, Nat.cast_ofNat, Nat.cast_one]
  rfl

/-! ## 1. Scaling -/

variable {num den : Nat} {e : Int}

theorem powerOfTwo_eq (e : Int) : ((powerOfTwo e).1 : ℚ) = (powerOfTwo e).2 * 2 ^ e := by
  show ((2 ^ e.toNat : Nat) : ℚ) = (2 ^ (-e).toNat : Nat) * 2 ^ e
  have split : (e.toNat : Int) = (-e).toNat + e := by omega
  rw [Nat.cast_pow, Nat.cast_pow, Nat.cast_ofNat, ← zpow_natCast, ← zpow_natCast, ← zpow_add₀ two_ne_zero,
    ← split]

theorem powerOfTwo_pos (e : Int) : 0 < (powerOfTwo e).1 ∧ 0 < (powerOfTwo e).2 :=
  ⟨Nat.pow_pos Nat.zero_lt_two, Nat.pow_pos Nat.zero_lt_two⟩

theorem scaled_lt_iff {c : Nat} :
    num * (powerOfTwo e).2 < c * (den * (powerOfTwo e).1) ↔ (num : ℚ) < c * 2 ^ e * den := by
  have positive : (0 : ℚ) < (powerOfTwo e).2 := by exact_mod_cast (powerOfTwo_pos e).2
  rw [← Nat.cast_lt (α := ℚ), Nat.cast_mul, Nat.cast_mul, Nat.cast_mul, powerOfTwo_eq]
  rw [show (c : ℚ) * (den * ((powerOfTwo e).2 * 2 ^ e)) = c * 2 ^ e * den * (powerOfTwo e).2 by ring]
  exact mul_lt_mul_iff_left₀ positive

theorem le_scaled_iff {c : Nat} :
    c * (den * (powerOfTwo e).1) ≤ num * (powerOfTwo e).2 ↔ (c : ℚ) * 2 ^ e * den ≤ num := by
  rw [← not_lt, scaled_lt_iff, not_lt]

/-! ## 2. The exponent of the quotient -/

/-- The exponent with which a quotient is rounded. -/
def exponentFor (num den : Nat) : Int :=
  let guess : Int := Int.ofNat num.log2 - Int.ofNat den.log2 - 52
  max (if num * (powerOfTwo guess).2 / (den * (powerOfTwo guess).1) < Nat.pow 2 52 then guess - 1 else guess)
    (-1074)

theorem nearestBits_eq (hn : num ≠ 0) (hd : den ≠ 0) : nearestBits num den =
    min ((exponentFor num den + 1074).toNat * 2 ^ 52 + roundDiv (num * (powerOfTwo (exponentFor num den)).2)
      (den * (powerOfTwo (exponentFor num den)).1)) (2047 * 2 ^ 52) := by
  unfold nearestBits
  rw [if_neg (by rintro (h | h) <;> contradiction)]
  rfl

/-- The first guess is right, or too great by one. -/
theorem guess_bounds (hn : num ≠ 0) (hd : den ≠ 0) {guess : Int}
    (h : guess = Int.ofNat num.log2 - Int.ofNat den.log2 - 52) :
    (num : ℚ) < 2 ^ 53 * 2 ^ guess * den ∧ 2 ^ 52 * 2 ^ (guess - 1) * den ≤ (num : ℚ) := by
  have numLow : (2 : ℚ) ^ (num.log2 : Int) ≤ num := by exact_mod_cast Nat.log2_self_le hn
  have numHigh : (num : ℚ) < 2 ^ (num.log2 + 1 : Int) := by exact_mod_cast Nat.lt_log2_self
  have denLow : (2 : ℚ) ^ (den.log2 : Int) ≤ den := by exact_mod_cast Nat.log2_self_le hd
  have denHigh : (den : ℚ) < 2 ^ (den.log2 + 1 : Int) := by exact_mod_cast Nat.lt_log2_self
  have h : guess = num.log2 - den.log2 - 52 := h
  constructor
  · calc (num : ℚ) < 2 ^ (num.log2 + 1 : Int) := numHigh
      _ = 2 ^ 53 * 2 ^ guess * 2 ^ (den.log2 : Int) := by
        rw [← zpow_natCast, ← zpow_add₀ two_ne_zero, ← zpow_add₀ two_ne_zero]
        congr 1
        omega
      _ ≤ 2 ^ 53 * 2 ^ guess * den := by gcongr
  · calc 2 ^ 52 * 2 ^ (guess - 1) * (den : ℚ) ≤ 2 ^ 52 * 2 ^ (guess - 1) * 2 ^ (den.log2 + 1 : Int) := by gcongr
      _ = 2 ^ (num.log2 : Int) := by
        rw [← zpow_natCast, ← zpow_add₀ two_ne_zero, ← zpow_add₀ two_ne_zero]
        congr 1
        omega
      _ ≤ num := numLow

/-- The exponent leaves 53 bits of the quotient, or fewer if it is the least exponent. -/
theorem exponentFor_bounds (hn : num ≠ 0) (hd : den ≠ 0) : -1074 ≤ exponentFor num den ∧
    (num : ℚ) < 2 ^ 53 * 2 ^ exponentFor num den * den ∧
    (exponentFor num den = -1074 ∨ 2 ^ 52 * 2 ^ exponentFor num den * den ≤ (num : ℚ)) := by
  unfold exponentFor
  extract_lets guess
  obtain ⟨below, above⟩ := @guess_bounds num den hn hd guess rfl
  have corrected : ∀ {best : Int}, (num : ℚ) < 2 ^ 53 * 2 ^ best * den → 2 ^ 52 * 2 ^ best * den ≤ (num : ℚ) →
      -1074 ≤ max best (-1074) ∧ (num : ℚ) < 2 ^ 53 * 2 ^ max best (-1074) * den ∧
        (max best (-1074) = -1074 ∨ 2 ^ 52 * 2 ^ max best (-1074) * den ≤ (num : ℚ)) := by
    intro best below above
    refine ⟨le_max_right _ _, below.trans_le ?_, ?_⟩
    · gcongr
      · exact one_le_two
      · exact le_max_left _ _
    · rcases le_total best (-1074) with low | high
      · exact .inl (max_eq_right low)
      · rw [max_eq_left high]
        exact .inr above
  have half : (2 : ℚ) ^ 53 * 2 ^ (guess - 1) = 2 ^ 52 * 2 ^ guess := by
    rw [zpow_sub_one₀ two_ne_zero]
    ring
  have scaled := @scaled_lt_iff num den guess (2 ^ 52)
  rw [← Nat.div_lt_iff_lt_mul (Nat.mul_pos (Nat.pos_of_ne_zero hd) (powerOfTwo_pos guess).1)] at scaled
  split
  case isTrue less =>
    apply corrected _ above
    rw [half]
    exact_mod_cast scaled.1 less
  case isFalse more =>
    apply corrected below
    have more := not_lt.1 (mt scaled.2 more)
    exact_mod_cast more

/-! ## 3. Rounding to infinity -/

theorem roundDiv_bounds (n d : Nat) : n / d ≤ roundDiv n d ∧ roundDiv n d ≤ n / d + 1 := by
  unfold roundDiv
  dsimp only
  split
  case isTrue => exact ⟨Nat.le_succ _, le_rfl⟩
  case isFalse => exact ⟨le_rfl, Nat.le_succ _⟩

theorem div_le_of_lt {n d q : Nat} (below : n < (q + 1) * d) : n / d ≤ q :=
  Nat.le_of_lt_succ (Nat.div_lt_of_lt_mul (by rwa [mul_comm]))

/-- A quotient below `q + 1`, for an odd `q`, is rounded up to it from the middle on. -/
theorem succ_le_roundDiv_iff {n d q : Nat} (odd : q % 2 = 1) (below : n < (q + 1) * d) :
    q + 1 ≤ roundDiv n d ↔ (2 * q + 1) * d ≤ 2 * n := by
  have whole := Nat.div_add_mod n d
  have rest : n % d < d := Nat.mod_lt n (Nat.pos_of_ne_zero (by rintro rfl; simp at below))
  rcases (div_le_of_lt below).lt_or_eq with less | same
  · -- The quotient is not even near `q`.
    have small : ¬ q + 1 ≤ roundDiv n d := by
      have most := (roundDiv_bounds n d).2
      omega
    have short : 2 * n < (2 * q + 1) * d := calc
      2 * n = 2 * (d * (n / d) + n % d) := by rw [whole]
      _ < 2 * (d * (n / d) + d) := by omega
      _ = 2 * (n / d + 1) * d := by ring
      _ ≤ (2 * q + 1) * d := Nat.mul_le_mul_right d (by omega)
    exact iff_of_false small (not_le.2 short)
  · have double : 2 * n = 2 * q * d + 2 * (n % d) := by
      rw [← same]
      nth_rewrite 1 [← whole]
      ring
    unfold roundDiv
    rw [double, add_mul, one_mul, Nat.add_le_add_iff_left, same]
    dsimp only
    split
    case isTrue up => exact iff_of_true le_rfl (by omega)
    case isFalse down => exact iff_of_false (by omega) (by omega)

/-- An exponent that leaves room for rounding up keeps the quotient below the bound. -/
theorem lt_bound_of_exponent_lt (low : e < 971) (below : (num : ℚ) < 2 ^ 53 * 2 ^ e * den) :
    (num : ℚ) < (2 ^ 54 - 1) * 2 ^ (970 : Int) * den :=
  calc (num : ℚ) < 2 ^ 53 * 2 ^ e * den := below
    _ ≤ (2 ^ 54 - 1) * 2 ^ (970 : Int) * den := by
      gcongr
      · norm_num
      · exact one_le_two
      · omega

theorem bound_le_of_lt_exponent (high : 971 < e) (above : 2 ^ 52 * 2 ^ e * den ≤ (num : ℚ)) :
    (2 ^ 54 - 1) * 2 ^ (970 : Int) * (den : ℚ) ≤ num :=
  calc (2 ^ 54 - 1) * 2 ^ (970 : Int) * (den : ℚ) ≤ 2 ^ 54 * 2 ^ (970 : Int) * (den : ℚ) := by
        gcongr
        norm_num
    _ = 2 ^ 52 * 2 ^ (972 : Int) * (den : ℚ) := by
      rw [← zpow_natCast, ← zpow_natCast, ← zpow_add₀ two_ne_zero, ← zpow_add₀ two_ne_zero]
      rfl
    _ ≤ 2 ^ 52 * 2 ^ e * den := by
      gcongr
      · exact one_le_two
      · omega
    _ ≤ num := above

/-- With the exponent of the greatest float it is the rounding that decides. -/
theorem bound_le_iff_roundDiv
    (below : num * (powerOfTwo 971).2 < (2 ^ 53 - 1 + 1) * (den * (powerOfTwo 971).1)) :
    2 ^ 53 - 1 + 1 ≤ roundDiv (num * (powerOfTwo 971).2) (den * (powerOfTwo 971).1) ↔
      (2 ^ 54 - 1) * 2 ^ (970 : Int) * (den : ℚ) ≤ num := by
  have scaled := @le_scaled_iff (2 * num) den 971 (2 * (2 ^ 53 - 1) + 1)
  rw [succ_le_roundDiv_iff (by decide) below, ← mul_assoc 2, scaled, show (971 : Int) = 970 + 1 from rfl,
    zpow_add_one₀ two_ne_zero]
  generalize (2 : ℚ) ^ (970 : Int) = unit
  push_cast
  constructor <;> intro h <;> linarith

/-- The bits are those of infinity from the bound on. -/
theorem infinite_nearestBits_iff (hd : den ≠ 0) :
    2047 * 2 ^ 52 ≤ nearestBits num den ↔ overflowBound * den ≤ num := by
  rcases eq_or_ne num 0 with rfl | hn
  · have zero : nearestBits 0 den = 0 := rfl
    have positive : 0 < overflowBound * den := by
      unfold overflowBound
      positivity
    rw [zero]
    exact iff_of_false (by decide) (not_le.2 positive)
  · have bound : overflowBound * den ≤ num ↔ (2 ^ 54 - 1) * 2 ^ (970 : Int) * (den : ℚ) ≤ num := by
      rw [← overflowBound_eq]
      exact_mod_cast Iff.rfl
    rw [nearestBits_eq hn hd, le_min_iff, and_iff_left le_rfl, bound]
    obtain ⟨least, below, above⟩ := exponentFor_bounds hn hd
    generalize exponentFor num den = e at *
    have below' := (scaled_lt_iff (c := 2 ^ 53 - 1 + 1)).2 (by exact_mod_cast below)
    obtain ⟨down, up⟩ := roundDiv_bounds (num * (powerOfTwo e).2) (den * (powerOfTwo e).1)
    rcases lt_trichotomy e 971 with low | rfl | high
    · have quotient := div_le_of_lt below'
      exact iff_of_false (by omega) (not_le.2 (lt_bound_of_exponent_lt low below))
    · rw [← bound_le_iff_roundDiv below']
      omega
    · have full := above.resolve_left (by omega)
      have quotient : 2 ^ 52 ≤ num * (powerOfTwo e).2 / (den * (powerOfTwo e).1) := by
        rw [Nat.le_div_iff_mul_le (Nat.mul_pos (Nat.pos_of_ne_zero hd) (powerOfTwo_pos e).1), le_scaled_iff]
        exact_mod_cast full
      exact iff_of_true (by omega) (bound_le_of_lt_exponent high full)

/-- A quotient has no float from the bound on. -/
theorem quotient?_eq_none_iff {a b : Int} (hb : b ≠ 0) :
    quotient? a b = none ↔ overflowBound * b.natAbs ≤ a.natAbs := by
  rw [← infinite_nearestBits_iff (Int.natAbs_ne_zero.2 hb)]
  show (if nearestBits a.natAbs b.natAbs < 2047 * 2 ^ 52 then some _ else none) = none ↔ _
  split
  case isTrue fits => exact iff_of_false (Option.some_ne_none _) (not_le.2 fits)
  case isFalse large => exact iff_of_true rfl (not_lt.1 large)

end SealedFields.Number.Binary64
