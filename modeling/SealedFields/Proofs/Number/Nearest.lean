import SealedFields.Proofs.Number.FloatBounds
import SealedFields.Proofs.Number.Quotient

/-!
# Rounding to the nearest float

A quotient is rounded to a float exactly within half a unit around it, and less than that below a power of two,
where the floats are denser. Rounding keeps the order of quotients.
-/

namespace SealedFields.Number.Binary64

/-! ## 1. Quotients rounded to naturals -/

section

variable {n d n' d' q : Nat}

/-- A quotient is rounded past `q` from the middle on, and in the middle if `q` is odd. -/
theorem lt_roundDiv_iff (pos : 0 < d) :
    q < roundDiv n d ↔ (2 * q + 1) * d < 2 * n ∨ (2 * q + 1) * d = 2 * n ∧ q % 2 = 1 := by
  have whole : n / d * d + n % d = n := Nat.div_add_mod' n d
  have rest : n % d < d := Nat.mod_lt n pos
  obtain ⟨down, up⟩ := roundDiv_bounds n d
  rcases lt_trichotomy q (n / d) with below | rfl | above
  · have : (2 * q + 1 + 1) * d ≤ 2 * (n / d) * d := Nat.mul_le_mul_right d (by omega)
    rw [add_one_mul (2 * q + 1), mul_assoc 2] at this
    omega
  · unfold roundDiv
    rw [add_one_mul (2 * (n / d)), mul_assoc 2]
    dsimp only
    split
    case isTrue past => omega
    case isFalse before => omega
  · have : (2 * (n / d) + 2 + 1) * d ≤ (2 * q + 1) * d := Nat.mul_le_mul_right d (by omega)
    rw [add_one_mul (2 * (n / d) + 2), add_mul, mul_assoc 2 (n / d)] at this
    omega

/-- The nearest natural, the even one of two. -/
theorem roundDiv_eq_of_near (pos : 0 < d) (low : (2 * q - 1) * d ≤ 2 * n) (high : 2 * n ≤ (2 * q + 1) * d)
    (odd : q % 2 = 1 → (2 * q - 1) * d < 2 * n ∧ 2 * n < (2 * q + 1) * d) : roundDiv n d = q := by
  have least : q ≤ roundDiv n d := by
    rcases Nat.eq_zero_or_pos q with rfl | positive
    · exact Nat.zero_le _
    · have before : 2 * (q - 1) + 1 = 2 * q - 1 := by omega
      have past : q - 1 < roundDiv n d := by
        rw [lt_roundDiv_iff pos, before]
        omega
      omega
  have most : ¬ q < roundDiv n d := by
    rw [lt_roundDiv_iff pos]
    omega
  omega

/-- The nearest natural is at most a half away, and less than that if it is odd. -/
theorem roundDiv_near (pos : 0 < d) : 2 * roundDiv n d * d ≤ 2 * n + d ∧ 2 * n ≤ (2 * roundDiv n d + 1) * d ∧
    (roundDiv n d % 2 = 1 → 2 * roundDiv n d * d < 2 * n + d ∧ 2 * n < (2 * roundDiv n d + 1) * d) := by
  have here := mt (lt_roundDiv_iff (n := n) pos).2 (lt_irrefl (roundDiv n d))
  rcases Nat.eq_zero_or_pos (roundDiv n d) with zero | positive
  · rw [zero] at here ⊢
    omega
  · have below := (lt_roundDiv_iff (n := n) pos).1 (Nat.sub_one_lt positive.ne')
    have split : 2 * roundDiv n d * d = (2 * (roundDiv n d - 1) + 1) * d + d := by
      rw [← add_one_mul]
      congr 1
      omega
    omega

theorem roundDiv_le_roundDiv (pos : 0 < d) (pos' : 0 < d') (le : n * d' ≤ n' * d) :
    roundDiv n d ≤ roundDiv n' d' := by
  by_contra more
  -- Whatever the smaller quotient is rounded past, the greater one is.
  have past := (lt_roundDiv_iff pos).1 (not_le.1 more)
  have short := mt (lt_roundDiv_iff pos').2 (lt_irrefl (roundDiv n' d'))
  generalize roundDiv n' d' = q at past short
  have scale : (2 * q + 1) * d * d' = (2 * q + 1) * d' * d := mul_right_comm _ _ _
  have up : 2 * n * d' ≤ 2 * n' * d := by
    rw [mul_assoc, mul_assoc]
    omega
  rcases past with past | ⟨middle, odd⟩
  · have : (2 * q + 1) * d * d' < 2 * n * d' := Nat.mul_lt_mul_of_pos_right past pos'
    have : (2 * q + 1) * d' < 2 * n' := Nat.lt_of_mul_lt_mul_right (a := d) (by omega)
    omega
  · have : (2 * q + 1) * d' ≤ 2 * n' := by
      apply Nat.le_of_mul_le_mul_right _ pos
      rw [← scale, middle]
      exact up
    omega

/-- Only the quotient matters. -/
theorem roundDiv_congr (pos : 0 < d) (pos' : 0 < d') (same : n * d' = n' * d) : roundDiv n d = roundDiv n' d' :=
  (roundDiv_le_roundDiv pos pos' same.le).antisymm (roundDiv_le_roundDiv pos' pos same.ge)

end

/-! ## 2. The exponent -/

variable {num den num' den' m : Nat} {e e' : Int}

/-- Full mantissas are ordered like their exponents. -/
theorem exponent_le_of_full (above : (2 : ℚ) ^ 52 * 2 ^ e * den ≤ num) (below : (num : ℚ) < 2 ^ 53 * 2 ^ e' * den) :
    e ≤ e' := by
  by_contra more
  have step : (2 : ℚ) ^ (e' + 1) ≤ 2 ^ e := zpow_le_zpow_right₀ one_le_two (by omega)
  have wide := calc
    2 ^ 53 * 2 ^ e' * (den : ℚ) = 2 ^ 52 * 2 ^ (e' + 1) * (den : ℚ) := by
      rw [zpow_add_one₀ two_ne_zero]
      ring
    _ ≤ 2 ^ 52 * 2 ^ e * (den : ℚ) := by gcongr
  linarith

theorem exponentFor_eq (hn : num ≠ 0) (hd : den ≠ 0) (least : -1074 ≤ e) (below : (num : ℚ) < 2 ^ 53 * 2 ^ e * den)
    (above : e = -1074 ∨ (2 : ℚ) ^ 52 * 2 ^ e * den ≤ num) : exponentFor num den = e := by
  obtain ⟨least', below', above'⟩ := exponentFor_bounds hn hd
  have le : exponentFor num den ≤ e := by
    rcases above' with low | full
    · omega
    · exact exponent_le_of_full full below
  have ge : e ≤ exponentFor num den := by
    rcases above with low | full
    · omega
    · exact exponent_le_of_full full below'
  omega

/-! ## 3. What is rounded to a float -/

/-- How far below a float quotients are rounded to it, in quarters of its unit: half as far as above it where
the numbers below are denser. -/
def slack (m : Nat) (e : Int) : Nat := if m = 2 ^ 52 ∧ e ≠ -1074 then 1 else 2

/-- The numbers that are rounded to `m · 2^e`. -/
structure Rounds (m : Nat) (e : Int) (v : ℚ) : Prop where
  low : (4 * m - slack m e) * 2 ^ e ≤ 4 * v
  high : 4 * v ≤ (4 * m + 2) * 2 ^ e
  odd : m % 2 = 1 → (4 * m - slack m e) * 2 ^ e < 4 * v ∧ 4 * v < (4 * m + 2) * 2 ^ e

theorem slack_le_two (m : Nat) (e : Int) : slack m e ≤ 2 := by
  unfold slack
  split <;> decide

theorem slack_pos (m : Nat) (e : Int) : 0 < slack m e := by
  unfold slack
  split <;> decide

section

variable {v : ℚ} {q : Nat}

/-- In units of `2^e`, a number within half a unit of `q` is rounded to it. -/
theorem roundDiv_scaled (value : (num : ℚ) = v * den) (hd : den ≠ 0) (pos : 0 < q) (low : (2 * q - 1) * 2 ^ e ≤ 2 * v)
    (high : 2 * v ≤ (2 * q + 1) * 2 ^ e)
    (odd : q % 2 = 1 → (2 * q - 1) * 2 ^ e < 2 * v ∧ 2 * v < (2 * q + 1) * 2 ^ e) :
    roundDiv (num * (powerOfTwo e).2) (den * (powerOfTwo e).1) = q := by
  have unit : (0 : ℚ) < den * (powerOfTwo e).2 := by
    exact_mod_cast Nat.mul_pos (Nat.pos_of_ne_zero hd) (powerOfTwo_pos e).2
  have less : ((2 * q - 1 : Nat) : ℚ) = 2 * q - 1 := by
    rw [Nat.cast_sub (by omega)]
    norm_num
  have above : ((2 * q + 1 : Nat) : ℚ) = 2 * q + 1 := by norm_num
  -- Both sides of every bound are multiplied by the same number.
  have side (c : ℚ) : c * (den * (powerOfTwo e).1) = c * 2 ^ e * (den * (powerOfTwo e).2) := by
    rw [powerOfTwo_eq]
    ring
  have middle : (2 : ℚ) * (num * (powerOfTwo e).2) = 2 * v * (den * (powerOfTwo e).2) := by
    rw [value]
    ring
  apply roundDiv_eq_of_near (Nat.mul_pos (Nat.pos_of_ne_zero hd) (powerOfTwo_pos e).1)
  · rw [← Nat.cast_le (α := ℚ)]
    simp only [Nat.cast_mul, less, Nat.cast_ofNat]
    rw [side, middle]
    gcongr
  · rw [← Nat.cast_le (α := ℚ)]
    simp only [Nat.cast_mul, above, Nat.cast_ofNat]
    rw [side, middle]
    gcongr
  · intro h
    obtain ⟨low, high⟩ := odd h
    rw [← Nat.cast_lt (α := ℚ), ← Nat.cast_lt (α := ℚ)]
    simp only [Nat.cast_mul, less, above, Nat.cast_ofNat]
    rw [side, side, middle]
    constructor <;> gcongr

/-- Conversely, a number lies within half a unit of what it is rounded to. -/
theorem roundDiv_scaled_bounds (value : (num : ℚ) = v * den) (hd : den ≠ 0)
    (same : roundDiv (num * (powerOfTwo e).2) (den * (powerOfTwo e).1) = q) :
    (2 * q - 1) * 2 ^ e ≤ 2 * v ∧ 2 * v ≤ (2 * q + 1) * 2 ^ e ∧
      (q % 2 = 1 → (2 * q - 1) * 2 ^ e < 2 * v ∧ 2 * v < (2 * q + 1) * 2 ^ e) := by
  have unit : (0 : ℚ) < den * (powerOfTwo e).2 := by
    exact_mod_cast Nat.mul_pos (Nat.pos_of_ne_zero hd) (powerOfTwo_pos e).2
  have number : ((num * (powerOfTwo e).2 : Nat) : ℚ) = v * (den * (powerOfTwo e).2) := by
    rw [Nat.cast_mul, value]
    ring
  have step : ((den * (powerOfTwo e).1 : Nat) : ℚ) = 2 ^ e * (den * (powerOfTwo e).2) := by
    rw [Nat.cast_mul, powerOfTwo_eq]
    ring
  obtain ⟨low, high, odd⟩ := roundDiv_near (n := num * (powerOfTwo e).2)
    (Nat.mul_pos (Nat.pos_of_ne_zero hd) (powerOfTwo_pos e).1)
  rw [same] at low high odd
  generalize num * (powerOfTwo e).2 = n at *
  generalize den * (powerOfTwo e).1 = d at *
  have low : (2 * q * d : ℚ) ≤ 2 * n + d := by exact_mod_cast low
  have high : (2 * n : ℚ) ≤ (2 * q + 1) * d := by exact_mod_cast high
  have odd : q % 2 = 1 → (2 * q * d : ℚ) < 2 * n + d ∧ (2 * n : ℚ) < (2 * q + 1) * d := by exact_mod_cast odd
  rw [number, step] at low high odd
  refine ⟨?_, ?_, fun h => ⟨?_, ?_⟩⟩
  · apply le_of_mul_le_mul_right _ unit
    linarith
  · apply le_of_mul_le_mul_right _ unit
    linarith
  · apply lt_of_mul_lt_mul_right _ unit.le
    linarith [(odd h).1]
  · apply lt_of_mul_lt_mul_right _ unit.le
    linarith [(odd h).2]

/-- The bits of a quotient, by an exponent that leaves 53 bits of it. -/
theorem nearestBits_of_exponent (value : (num : ℚ) = v * den) (hd : den ≠ 0) (least : -1074 ≤ e)
    (below : v < 2 ^ 53 * 2 ^ e) (above : e = -1074 ∨ 2 ^ 52 * 2 ^ e ≤ v) (pos : 0 < q)
    (low : (2 * q - 1) * 2 ^ e ≤ 2 * v) (high : 2 * v ≤ (2 * q + 1) * 2 ^ e)
    (odd : q % 2 = 1 → (2 * q - 1) * 2 ^ e < 2 * v ∧ 2 * v < (2 * q + 1) * 2 ^ e) :
    nearestBits num den = min ((e + 1074).toNat * 2 ^ 52 + q) (2047 * 2 ^ 52) := by
  have unit : (0 : ℚ) < den := by exact_mod_cast Nat.pos_of_ne_zero hd
  have positive : 0 < v := by
    have : (0 : ℚ) < (2 * q - 1) * 2 ^ e := by
      have : (1 : ℚ) ≤ q := by exact_mod_cast pos
      apply mul_pos _ (by positivity)
      linarith
    linarith
  have hn : num ≠ 0 := by
    rintro rfl
    rw [Nat.cast_zero] at value
    exact absurd value (mul_pos positive unit).ne
  have below : (num : ℚ) < 2 ^ 53 * 2 ^ e * den := by
    rw [value]
    gcongr
  have above : e = -1074 ∨ (2 : ℚ) ^ 52 * 2 ^ e * den ≤ num := by
    rw [value]
    apply above.imp_right
    intro full
    gcongr
  rw [nearestBits_eq hn hd, exponentFor_eq hn hd least below above, roundDiv_scaled value hd pos low high odd]

/-- A number is rounded to the float around which it lies. -/
theorem nearestBits_of_rounds (value : (num : ℚ) = v * den) (hd : den ≠ 0) (canonical : Canonical m e) (pos : 0 < m)
    (rounds : Rounds m e v) : nearestBits num den = min ((e + 1074).toNat * 2 ^ 52 + m) (2047 * 2 ^ 52) := by
  obtain ⟨short, least, normal⟩ := canonical
  obtain ⟨low, high, odd⟩ := rounds
  have unit : (0 : ℚ) < 2 ^ e := by positivity
  have short : (m : ℚ) + 1 ≤ 2 ^ 53 := by exact_mod_cast short
  have half : (slack m e : ℚ) ≤ 2 := by exact_mod_cast slack_le_two m e
  have least' : (4 * m - 2 : ℚ) * 2 ^ e ≤ (4 * m - slack m e) * 2 ^ e := by gcongr
  by_cases dense : 2 ^ 52 * 2 ^ e ≤ v ∨ e = -1074
  · -- The exponent is that of the float.
    have below : v < 2 ^ 53 * 2 ^ e := by nlinarith
    apply nearestBits_of_exponent value hd least below dense.symm pos
    · linarith
    · linarith
    · intro h
      obtain ⟨low, high⟩ := odd h
      constructor <;> linarith
  · -- The number is below a power of two, and its mantissa is rounded up to it.
    rw [not_or, not_le] at dense
    obtain ⟨less, above⟩ := dense
    have full : 2 ^ 52 ≤ m := normal.resolve_right above
    have boundary : m = 2 ^ 52 := by
      have : (m : ℚ) < 2 ^ 52 + 1 := by nlinarith
      have : m < 2 ^ 52 + 1 := by exact_mod_cast this
      omega
    have quarter : slack m e = 1 := if_pos ⟨boundary, above⟩
    rw [quarter, boundary] at low
    have double : (2 : ℚ) ^ e = 2 * 2 ^ (e - 1) := by
      rw [zpow_sub_one₀ two_ne_zero]
      ring
    have unit' : (0 : ℚ) < 2 ^ (e - 1) := by positivity
    rw [double] at low less
    norm_num at low less
    have bits : nearestBits num den = min ((e - 1 + 1074).toNat * 2 ^ 52 + 2 ^ 53) (2047 * 2 ^ 52) := by
      apply nearestBits_of_exponent value hd (by omega) _ (.inr _) (by decide) _ _ (absurd · (by decide))
      all_goals norm_num
      all_goals linarith
    rw [bits, boundary]
    omega

/-- The float itself is rounded to itself. -/
theorem rounds_self (m : Nat) (e : Int) : Rounds m e (m * 2 ^ e) := by
  have unit : (0 : ℚ) < 2 ^ e := by positivity
  have positive : (0 : ℚ) < slack m e := by exact_mod_cast slack_pos m e
  constructor
  · nlinarith
  · linarith
  · intro
    constructor <;> nlinarith

end

/-! ## 4. Order -/

theorem exponentFor_le (hn : num ≠ 0) (hd : den ≠ 0) (hn' : num' ≠ 0) (hd' : den' ≠ 0)
    (le : num * den' ≤ num' * den) : exponentFor num den ≤ exponentFor num' den' := by
  obtain ⟨least, below, above⟩ := exponentFor_bounds hn hd
  obtain ⟨least', below', above'⟩ := exponentFor_bounds hn' hd'
  rcases above with low | full
  · omega
  · have le : (num : ℚ) * den' ≤ num' * den := by exact_mod_cast le
    have unit : (0 : ℚ) < den := by exact_mod_cast Nat.pos_of_ne_zero hd
    have unit' : (0 : ℚ) < den' := by exact_mod_cast Nat.pos_of_ne_zero hd'
    have above : (2 : ℚ) ^ 52 * 2 ^ exponentFor num den * (den * den' : Nat) ≤ (num * den' : Nat) := by
      push_cast
      rw [← mul_assoc]
      gcongr
    have below : ((num * den' : Nat) : ℚ) < 2 ^ 53 * 2 ^ exponentFor num' den' * (den * den' : Nat) := by
      push_cast
      calc (num : ℚ) * den' ≤ num' * den := le
        _ < 2 ^ 53 * 2 ^ exponentFor num' den' * den' * den := by gcongr
        _ = _ := by ring
    exact exponent_le_of_full above below

theorem mantissa_le (below : (num : ℚ) < 2 ^ 53 * 2 ^ e * den) :
    roundDiv (num * (powerOfTwo e).2) (den * (powerOfTwo e).1) ≤ 2 ^ 53 := by
  have short := (scaled_lt_iff (c := 2 ^ 53 - 1 + 1)).2 (by exact_mod_cast below)
  have quotient := div_le_of_lt short
  have up := (roundDiv_bounds (num * (powerOfTwo e).2) (den * (powerOfTwo e).1)).2
  omega

theorem le_mantissa (hd : den ≠ 0) (above : (2 : ℚ) ^ 52 * 2 ^ e * den ≤ num) :
    2 ^ 52 ≤ roundDiv (num * (powerOfTwo e).2) (den * (powerOfTwo e).1) := by
  have quotient : 2 ^ 52 ≤ num * (powerOfTwo e).2 / (den * (powerOfTwo e).1) := by
    rw [Nat.le_div_iff_mul_le (Nat.mul_pos (Nat.pos_of_ne_zero hd) (powerOfTwo_pos e).1), le_scaled_iff]
    exact_mod_cast above
  exact quotient.trans (roundDiv_bounds _ _).1

/-- The greater quotient has the greater bits. -/
theorem nearestBits_le_nearestBits (hd : den ≠ 0) (hd' : den' ≠ 0) (le : num * den' ≤ num' * den) :
    nearestBits num den ≤ nearestBits num' den' := by
  by_cases hn : num = 0
  · have zero : nearestBits num den = 0 := if_pos (.inl hn)
    omega
  have hn' : num' ≠ 0 := by
    rintro rfl
    rw [Nat.zero_mul, Nat.le_zero, mul_eq_zero] at le
    exact le.elim hn hd'
  have exponents := exponentFor_le hn hd hn' hd' le
  rw [nearestBits_eq hn hd, nearestBits_eq hn' hd']
  apply min_le_min_right
  obtain ⟨least, below, above⟩ := exponentFor_bounds hn hd
  obtain ⟨least', below', above'⟩ := exponentFor_bounds hn' hd'
  generalize exponentFor num den = e at *
  generalize exponentFor num' den' = e' at *
  rcases exponents.lt_or_eq with less | rfl
  · -- The smaller mantissa is at most 2 to the 53, and the greater at least 2 to the 52, with its own exponent.
    have most := mantissa_le below
    have full := le_mantissa hd' (above'.resolve_left (by omega))
    omega
  · have same : roundDiv (num * (powerOfTwo e).2) (den * (powerOfTwo e).1)
        ≤ roundDiv (num' * (powerOfTwo e).2) (den' * (powerOfTwo e).1) := by
      apply roundDiv_le_roundDiv (Nat.mul_pos (Nat.pos_of_ne_zero hd) (powerOfTwo_pos e).1)
        (Nat.mul_pos (Nat.pos_of_ne_zero hd') (powerOfTwo_pos e).1)
      rw [mul_mul_mul_comm, mul_mul_mul_comm num']
      rw [mul_comm (powerOfTwo e).2]
      exact Nat.mul_le_mul_right _ le
    omega

end SealedFields.Number.Binary64
