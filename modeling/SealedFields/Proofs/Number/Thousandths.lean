import SealedFields.Proofs.Number.Rescaling

/-!
# Whole thousandths of floats

The whole thousandths of a float are counted by a product that is rounded, and the count stands for the float nearest
to its quotient. Counting that again scales a thousand by the quotient, which gives the same count, or one less: a
quotient that was rounded down has a product that may be rounded down past the count. Which counts drift so is told by
a remainder.
-/

namespace SealedFields.Number.Thousandths

open Binary64
open Rescaling (Scaled FallsShort lack lack_bounds fallsShort_iff)

variable {m n n' my mz : Nat} {e ey ez : Int} {v w : ℚ}

/-! ## 1. Counts -/

/-- The whole thousandths of `v` as they are counted: of the float nearest to a thousand times `v`, the whole part. -/
def Counted (v : ℚ) (n : Nat) : Prop :=
  ∃ m e, IsNearest m e (1000 * v) ∧ (n : ℚ) ≤ m * 2 ^ e ∧ (m : ℚ) * 2 ^ e < n + 1

theorem Counted.mono (h : Counted v n) (h' : Counted w n') (le : v ≤ w) : n ≤ n' := by
  obtain ⟨m, e, nearest, low, high⟩ := h
  obtain ⟨m', e', nearest', low', high'⟩ := h'
  have products := nearest.mono nearest' (by linarith)
  have less : (n : ℚ) < n' + 1 := by linarith
  have less : n < n' + 1 := by exact_mod_cast less
  omega

theorem Counted.unique (h : Counted v n) (h' : Counted v n') : n = n' :=
  (h.mono h' le_rfl).antisymm (h'.mono h le_rfl)

theorem quotient_eq (n : Nat) : (n : ℚ) = n / 1000 * (1000 : Nat) := by
  push_cast
  rw [div_mul_cancel₀ _ (by norm_num)]

/-- The quotient of the count lies in the lower part of the numbers with its exponent, where the units of its product
are just half as large as they could be, and it is rounded down by more than the product makes good. -/
def Drifts (n : Nat) : Prop :=
  ∃ k, k < 43 ∧ 1000 * 2 ^ k ≤ n ∧ n < 1024 * 2 ^ k ∧ 256 < n * 2 ^ (52 - k) % 1000 ∧ n * 2 ^ (52 - k) % 1000 < 500

instance : DecidablePred Drifts := fun _ => inferInstanceAs (Decidable (∃ k, k < 43 ∧ _))

theorem not_drifts_of_large (large : 2 ^ 52 ≤ n) : ¬ Drifts n := by
  rintro ⟨k, small, -, high, -, -⟩
  have power : 2 ^ k ≤ 2 ^ 42 := Nat.pow_le_pow_right (by decide) (by omega)
  omega

/-! ## 2. Large counts -/

/-- A product that is large enough is a whole number. -/
theorem eq_of_large (h : IsNearest m e v) (low : (n : ℚ) ≤ m * 2 ^ e) (high : (m : ℚ) * 2 ^ e < n + 1)
    (large : 2 ^ 52 ≤ n) : (m : ℚ) * 2 ^ e = n := by
  have nonneg : 0 ≤ e := by
    by_contra negative
    have short : (m : ℚ) < 2 ^ 53 := by exact_mod_cast h.canonical.short
    have large : (2 : ℚ) ^ 52 ≤ n := by exact_mod_cast large
    have half : (m : ℚ) * 2 ^ e < 2 ^ 52 := calc
      (m : ℚ) * 2 ^ e ≤ m * 2 ^ (-1 : Int) := by
        gcongr
        · exact one_le_two
        · omega
      _ = m / 2 := by rw [zpow_neg_one, div_eq_mul_inv]
      _ < 2 ^ 53 / 2 := by gcongr
      _ = 2 ^ 52 := by norm_num
    linarith
  obtain ⟨k, rfl⟩ := Int.eq_ofNat_of_zero_le nonneg
  rw [zpow_natCast] at low high ⊢
  have low : n ≤ m * 2 ^ k := by exact_mod_cast low
  have high : m * 2 ^ k < n + 1 := by exact_mod_cast high
  have same : m * 2 ^ k = n := by omega
  exact_mod_cast same

/-- The quotient of a power of two is rounded up. -/
theorem power_le_product {t : Int} (least : -1064 ≤ t) (most : t < 972) (hy : IsNearest my ey (2 ^ 52 * 2 ^ t / 1000)) :
    2 ^ 52 * 2 ^ t ≤ 1000 * ((my : ℚ) * 2 ^ ey) := by
  have unit : (0 : ℚ) < 2 ^ (t - 10) := by positivity
  have split : (2 : ℚ) ^ t = 2 ^ (t - 10) * 2 ^ 10 := by
    rw [← zpow_natCast, ← zpow_add₀ two_ne_zero]
    congr 1
    omega
  rw [split] at hy ⊢
  have rounded : IsNearest 4611686018427388 (t - 10) (2 ^ 52 * (2 ^ (t - 10) * 2 ^ 10) / 1000) := by
    refine ⟨⟨by decide, by omega, .inl (by decide)⟩, by decide, by omega, ?_⟩
    have room : slack 4611686018427388 (t - 10) = 2 := if_neg fun h => absurd h.1 (by decide)
    refine ⟨?_, ?_, fun odd => absurd odd (by decide)⟩
    · rw [room]
      push_cast
      linarith
    · push_cast
      linarith
  obtain ⟨rfl, rfl⟩ := hy.unique rounded
  push_cast
  linarith

/-- A large count is counted again. -/
theorem recount_large (canonical : Canonical m e) (h : Counted (m * 2 ^ e) n) (large : 2 ^ 52 ≤ n)
    (hy : IsNearest my ey (n / 1000)) : Counted (my * 2 ^ ey) n := by
  obtain ⟨mp, ep, nearest, low, high⟩ := h
  have same := eq_of_large nearest low high large
  refine ⟨mp, ep, ?_, low, high⟩
  rw [← same] at hy
  apply isNearest_mul_of_div (by norm_num) canonical nearest hy
  by_cases dense : mp = 2 ^ 52 ∧ ep ≠ -1074
  · right
    obtain ⟨rfl, -⟩ := dense
    have exponent := nearest.canonical.least
    have most := nearest.most
    have whole : -1064 ≤ ep := by
      by_contra negative
      have large : (2 : ℚ) ^ 52 ≤ n := by exact_mod_cast large
      have small : (2 : ℚ) ^ ep < 1 := zpow_lt_one_of_neg₀ one_lt_two (by omega)
      rw [← same] at large
      push_cast at large
      linarith
    push_cast at hy ⊢
    exact power_le_product whole most hy
  · left
    exact if_neg dense

/-! ## 3. Small counts -/

section

variable {k : Nat}

/-- Every count is within a power of two of a thousand. -/
theorem exists_scale (least : 1000 ≤ n) (small : n < 2 ^ 52) : ∃ k < 43, 1000 * 2 ^ k ≤ n ∧ n < 2000 * 2 ^ k := by
  have some : n / 1000 ≠ 0 := by omega
  have low := Nat.log2_self_le some
  have high := Nat.lt_log2_self (n := n / 1000)
  rw [pow_succ] at high
  refine ⟨(n / 1000).log2, (Nat.log2_lt some).2 ?_, ?_, ?_⟩ <;> omega

/-- The scale of a count is unique. -/
theorem scale_unique {i j : Nat} (low : 1000 * 2 ^ i ≤ n) (high : n < 2000 * 2 ^ j) : i ≤ j := by
  have less : 2 ^ i < 2 ^ (j + 1) := by
    rw [pow_succ]
    omega
  have := (Nat.pow_lt_pow_iff_right one_lt_two).1 less
  omega

theorem drifts_iff (small : k < 43) (low : 1000 * 2 ^ k ≤ n) (high : n < 2000 * 2 ^ k) :
    Drifts n ↔ n < 1024 * 2 ^ k ∧ 256 < n * 2 ^ (52 - k) % 1000 ∧ n * 2 ^ (52 - k) % 1000 < 500 := by
  constructor
  · rintro ⟨i, -, low', high', rest⟩
    obtain rfl : i = k := (scale_unique low' high).antisymm (scale_unique low (by omega))
    exact ⟨high', rest⟩
  · exact fun ⟨high, rest⟩ => ⟨k, small, low, high, rest⟩

/-- What the quotient of a count lacks is told by a remainder. -/
theorem lack_gt_iff (scale : k < 43) : 256 < lack n 1000 (52 - k) ↔
    256 < n * 2 ^ (52 - k) % 1000 ∧ n * 2 ^ (52 - k) % 1000 < 500 := by
  -- The scaled count is a multiple of 8, so its quotient is never halfway between two numbers.
  have eight : 8 ∣ n * 2 ^ (52 - k) := dvd_mul_of_dvd_right (pow_dvd_pow 2 (show 3 ≤ 52 - k by omega)) n
  obtain ⟨below, above, -⟩ := roundDiv_near (n := n * 2 ^ (52 - k)) (d := 1000) (by decide)
  have lack_eq : lack n 1000 (52 - k) = (n * 2 ^ (52 - k) : Nat) - 1000 * roundDiv (n * 2 ^ (52 - k)) 1000 := by
    unfold lack
    push_cast
    rfl
  omega

/-- A count drifts if its quotient, multiplied by a thousand again, falls short of it. -/
theorem drifts_iff_fallsShort (least : 1000 ≤ n) (small : n < 2 ^ 52) : Drifts n ↔ FallsShort 1000 n 1000 := by
  obtain ⟨k, scale, low, high⟩ := exists_scale least small
  have power (c : Nat) : c * 2 ^ k * 2 ^ (52 - k) = 2 ^ 52 * c := by
    rw [mul_assoc, ← pow_add, Nat.add_sub_cancel' (by omega), mul_comm]
  have full : 2 ^ 52 * 1000 ≤ n * 2 ^ (52 - k) := power 1000 ▸ Nat.mul_le_mul_right _ low
  have short : n * 2 ^ (52 - k) < 2 ^ 53 * 1000 := by
    have short := Nat.mul_lt_mul_of_pos_right high (show 0 < 2 ^ (52 - k) by positivity)
    rw [power] at short
    omega
  have fallsShort := fallsShort_iff (b := 1000) (by omega) full short
  rw [Nat.mul_div_cancel_left n (by decide), and_iff_right (Nat.dvd_mul_right 1000 n)] at fallsShort
  rw [drifts_iff scale low high, fallsShort]
  have rest := lack_gt_iff (n := n) scale
  have half := (lack_bounds (s := 1000) (by decide) n (52 - k)).2
  have unit (j : Nat) : 2 ^ (k + j) = 2 ^ j * 2 ^ k := by rw [pow_add, mul_comm]
  rcases lt_or_ge n (1024 * 2 ^ k) with window | window
  · have log : n.log2 = k + 9 := by
      rw [Nat.log2_eq_iff (by omega), add_assoc, unit, unit]
      omega
    have more : n ≠ 2 ^ n.log2 := by
      rw [log, unit]
      omega
    have units : n.log2 + (52 - k) = 61 := by omega
    rw [room, if_neg more, units, ← rest]
    omega
  · have log : n.log2 = k + 10 := by
      rw [Nat.log2_eq_iff (by omega), add_assoc, unit, unit]
      omega
    have units : n.log2 + (52 - k) = 62 := by omega
    rw [room, units, log, unit]
    split
    case isTrue dense =>
      -- There is less room below a power of two, but its quotient is rounded up.
      have remainder : n * 2 ^ (52 - k) % 1000 = 904 := by
        rw [show n = 1024 * 2 ^ k from dense, power]
        rfl
      omega
    case isFalse => omega

/-- A small count is counted again, or one less if it drifts. -/
theorem recount_small (least : 1000 ≤ n) (small : n < 2 ^ 52) (hy : IsNearest my ey (n / 1000))
    (hz : IsNearest mz ez (1000 * (my * 2 ^ ey))) : Counted (my * 2 ^ ey) (if Drifts n then n - 1 else n) := by
  obtain ⟨q, floor, ceiling⟩ : ∃ q : Nat, (q : ℚ) ≤ mz * 2 ^ ez ∧ (mz : ℚ) * 2 ^ ez < q + 1 :=
    ⟨_, Nat.floor_le (by positivity), Nat.lt_floor_add_one _⟩
  have scaled : Scaled 1000 n 1000 q :=
    ⟨my, ey, by exact_mod_cast hy, .inr ⟨mz, ez, by exact_mod_cast hz, floor, ceiling⟩⟩
  have value := scaled.eq (by decide) (by decide) (by omega) (by omega) (.inr ⟨Nat.dvd_mul_right _ _, by omega⟩)
  have again : q = if Drifts n then n - 1 else n := by
    rw [value, Nat.mul_div_cancel_left n (by decide)]
    simp only [drifts_iff_fallsShort least small]
    split <;> rfl
  exact ⟨mz, ez, hz, again ▸ floor, again ▸ ceiling⟩

end

/-! ## 4. Counting again -/

/-- Of the float nearest to its quotient, a count is counted again, or one less if it drifts. -/
theorem recount (canonical : Canonical m e) (h : Counted (m * 2 ^ e) n) (least : 1000 ≤ n)
    (hy : IsNearest my ey (n / 1000)) (hz : IsNearest mz ez (1000 * (my * 2 ^ ey))) :
    Counted (my * 2 ^ ey) (if Drifts n then n - 1 else n) := by
  rcases lt_or_ge n (2 ^ 52) with small | large
  · exact recount_small least small hy hz
  · rw [if_neg (not_drifts_of_large large)]
    exact recount_large canonical h large hy

example : ¬ Drifts 4003 ∧ Drifts 4004 := by decide +kernel

end SealedFields.Number.Thousandths
