import SealedFields.Number.Shortest
import SealedFields.Proofs.Number.Nearest

/-!
# Shortest decimals

The decimal that is written for a float lies among the numbers that are rounded to it. Eighteen digits are always
enough: their grid is finer than the room that a float has on either side.
-/

namespace SealedFields.Number

open Binary64 (powerOfTwo powerOfTwo_eq powerOfTwo_pos slack Rounds)

variable {num den m d : Nat} {e g k t : Int}

/-! ## 1. Powers of ten -/

theorem powerOfTen_eq (k : Int) : (Nat.pow 10 k.toNat : ℚ) = (Nat.pow 10 (-k).toNat : Nat) * 10 ^ k := by
  show ((10 ^ k.toNat : Nat) : ℚ) = (10 ^ (-k).toNat : Nat) * 10 ^ k
  have split : (k.toNat : Int) = (-k).toNat + k := by omega
  rw [Nat.cast_pow, Nat.cast_pow, Nat.cast_ofNat, ← zpow_natCast, ← zpow_natCast, ← zpow_add₀ (by norm_num), ← split]

theorem powerOfTen_pos (n : Nat) : 0 < Nat.pow 10 n := Nat.pow_pos (by decide)

/-- Two powers of the bases compare them for all exponents in their ratio. -/
theorem zpow_le_zpow_of_pow {b c : ℚ} {p q : Nat} {x y : Int} (hb : 0 < b) (hc : 1 ≤ c) (base : b ^ p ≤ c ^ q)
    (hp : p ≠ 0) (nonneg : 0 ≤ x) (le : q * x ≤ p * y) : b ^ x ≤ c ^ y := by
  have hc' : 0 < c := one_pos.trans_le hc
  have powers : (b ^ x) ^ p ≤ (c ^ y) ^ p := calc
    (b ^ x) ^ p = (b ^ p) ^ x := by
      rw [← zpow_natCast, ← zpow_natCast, ← zpow_mul, ← zpow_mul, mul_comm]
    _ ≤ (c ^ q) ^ x := zpow_le_zpow_left₀ nonneg (by positivity) base
    _ = c ^ (q * x) := by rw [← zpow_natCast, ← zpow_mul]
    _ ≤ c ^ (p * y) := zpow_le_zpow_right₀ hc le
    _ = (c ^ y) ^ p := by rw [← zpow_natCast, ← zpow_mul, mul_comm]
  exact (pow_le_pow_iff_left₀ (by positivity) (by positivity) hp).1 powers

/-- The estimate of a decimal exponent is not too great. -/
theorem ten_zpow_le (most : g * 100000 ≤ t * 30103) (low : -6000 ≤ t) (high : t ≤ 6000) :
    (10 : ℚ) ^ g ≤ 2 ^ (t + 1) := by
  have fine : (10 : ℚ) ^ 59 ≤ 2 ^ 196 := by norm_num
  have coarse : (2 : ℚ) ^ 93 ≤ 10 ^ 28 := by norm_num
  by_cases large : 0 ≤ g
  · exact zpow_le_zpow_of_pow (by norm_num) one_le_two fine (by decide) large (by omega)
  · by_cases small : t + 1 ≤ 0
    · have inverse : (2 : ℚ) ^ (-(t + 1)) ≤ 10 ^ (-g) :=
        zpow_le_zpow_of_pow two_pos (by norm_num) coarse (by decide) (by omega) (by omega)
      rw [zpow_neg, zpow_neg] at inverse
      exact (inv_le_inv₀ (by positivity) (by positivity)).1 inverse
    · -- A negative power of ten against a power of two that is none.
      calc (10 : ℚ) ^ g ≤ 10 ^ (0 : Int) := zpow_le_zpow_right₀ (by norm_num) (by omega)
        _ = 2 ^ (0 : Int) := by rw [zpow_zero, zpow_zero]
        _ ≤ 2 ^ (t + 1) := zpow_le_zpow_right₀ one_le_two (by omega)

/-- It is not too small by more than one. -/
theorem two_zpow_le (least : t * 30103 < (g + 1) * 100000) (low : 0 ≤ t) (high : t ≤ 6000) :
    (2 : ℚ) ^ t ≤ 10 ^ (g + 2) := by
  have coarse : (2 : ℚ) ^ 93 ≤ 10 ^ 28 := by norm_num
  exact zpow_le_zpow_of_pow two_pos (by norm_num) coarse (by decide) low (by omega)

/-! ## 2. The decimal exponent -/

/-- The first digit is not looked for above where the number begins. -/
theorem decimalExponent_bounds (hn : num ≠ 0) (hd : den ≠ 0) (exact : Int.ofNat num.log2 - Int.ofNat den.log2 = t)
    (low : -6000 ≤ t) (high : t ≤ 6000) :
    (10 : ℚ) ^ decimalExponent num den * den ≤ num ∧ t * 30103 / 100000 - 1 ≤ decimalExponent num den := by
  have reaches (k : Int) : Nat.pow 10 k.toNat * den ≤ num * Nat.pow 10 (-k).toNat ↔ (10 : ℚ) ^ k * den ≤ num := by
    have unit : (0 : ℚ) < (Nat.pow 10 (-k).toNat : Nat) := by exact_mod_cast powerOfTen_pos _
    rw [← Nat.cast_le (α := ℚ), Nat.cast_mul, Nat.cast_mul, powerOfTen_eq, mul_assoc, mul_comm]
    exact mul_le_mul_iff_left₀ unit
  unfold decimalExponent
  rw [exact]
  dsimp only
  simp only [reaches, decide_eq_true_eq]
  split
  case isTrue above => exact ⟨above, by omega⟩
  case isFalse =>
    split
    case isTrue same => exact ⟨same, by omega⟩
    case isFalse =>
      refine ⟨?_, le_rfl⟩
      have numLow : (2 : ℚ) ^ (num.log2 : Int) ≤ num := by exact_mod_cast Nat.log2_self_le hn
      have denHigh : (den : ℚ) < 2 ^ (den.log2 + 1 : Int) := by exact_mod_cast Nat.lt_log2_self
      have exact : (num.log2 : Int) = t + den.log2 := by
        have exact : (num.log2 : Int) - den.log2 = t := exact
        omega
      have estimate : (10 : ℚ) ^ (t * 30103 / 100000) ≤ 2 ^ (t + 1) := ten_zpow_le (by omega) low high
      calc (10 : ℚ) ^ (t * 30103 / 100000 - 1) * den ≤ 2 ^ (t - 1) * 2 ^ (den.log2 + 1 : Int) := by
            have tenth : (10 : ℚ) ^ (t * 30103 / 100000 - 1) ≤ 2 ^ (t - 1) := by
              rw [zpow_sub_one₀ (by norm_num), zpow_sub_one₀ two_ne_zero]
              rw [zpow_add_one₀ two_ne_zero] at estimate
              have positive : (0 : ℚ) < 2 ^ t := by positivity
              linarith
            gcongr
        _ = 2 ^ (num.log2 : Int) := by
          rw [← zpow_add₀ two_ne_zero, exact]
          congr 1
          omega
        _ ≤ num := numLow

/-! ## 3. Grids -/

/-- Is the point `d · 10^k` rounded to `m · 2^e`? Both are compared without their denominators. -/
def inside (m : Nat) (e k : Int) (d : Nat) : Bool :=
  let least := (4 * m - slack m e) * (powerOfTwo e).1 * Nat.pow 10 (-k).toNat
  let greatest := (4 * m + 2) * (powerOfTwo e).1 * Nat.pow 10 (-k).toNat
  let point := 4 * d * Nat.pow 10 k.toNat * (powerOfTwo e).2
  if m % 2 = 0 then least ≤ point && point ≤ greatest else least < point && point < greatest

/-- The point of the grid that is nearest to `m · 2^e`. -/
def nearPoint (m : Nat) (e k : Int) : Nat :=
  roundDiv (m * (powerOfTwo e).1 * Nat.pow 10 (-k).toNat) ((powerOfTwo e).2 * Nat.pow 10 k.toNat)

/-- The neighbour on the other side. -/
def farPoint (m : Nat) (e k : Int) : Nat :=
  if nearPoint m e k * ((powerOfTwo e).2 * Nat.pow 10 k.toNat) ≤ m * (powerOfTwo e).1 * Nat.pow 10 (-k).toNat then
    nearPoint m e k + 1
  else nearPoint m e k - 1

theorem onGrid?_eq (m : Nat) (e k : Int) : onGrid? m e k = if inside m e k (nearPoint m e k) then some (nearPoint m e k)
    else if inside m e k (farPoint m e k) then some (farPoint m e k) else none := rfl

theorem inside_iff (pos : 0 < m) : inside m e k d = true ↔ Rounds m e (d * 10 ^ k) := by
  have unit : (0 : ℚ) < (powerOfTwo e).2 * (Nat.pow 10 (-k).toNat : Nat) := by
    exact_mod_cast Nat.mul_pos (powerOfTwo_pos e).2 (powerOfTen_pos _)
  have less : slack m e ≤ 4 * m := (Binary64.slack_le_two m e).trans (by omega)
  unfold inside
  extract_lets least greatest point
  have least_eq : (least : ℚ) = (4 * m - slack m e) * 2 ^ e * ((powerOfTwo e).2 * (Nat.pow 10 (-k).toNat : Nat)) := by
    unfold least
    rw [Nat.cast_mul, Nat.cast_mul, Nat.cast_sub less, powerOfTwo_eq]
    push_cast
    ring
  have greatest_eq : (greatest : ℚ) = (4 * m + 2) * 2 ^ e * ((powerOfTwo e).2 * (Nat.pow 10 (-k).toNat : Nat)) := by
    unfold greatest
    rw [Nat.cast_mul, Nat.cast_mul, powerOfTwo_eq]
    push_cast
    ring
  have point_eq : (point : ℚ) = 4 * (d * 10 ^ k) * ((powerOfTwo e).2 * (Nat.pow 10 (-k).toNat : Nat)) := by
    unfold point
    rw [Nat.cast_mul, Nat.cast_mul, powerOfTen_eq]
    push_cast
    ring
  split
  case isTrue even =>
    rw [Bool.and_eq_true, decide_eq_true_iff, decide_eq_true_iff, ← Nat.cast_le (α := ℚ), ← Nat.cast_le (α := ℚ),
      least_eq, point_eq, greatest_eq, mul_le_mul_iff_left₀ unit, mul_le_mul_iff_left₀ unit]
    exact ⟨fun ⟨low, high⟩ => ⟨low, high, by omega⟩, fun h => ⟨h.low, h.high⟩⟩
  case isFalse odd =>
    rw [Bool.and_eq_true, decide_eq_true_iff, decide_eq_true_iff, ← Nat.cast_lt (α := ℚ), ← Nat.cast_lt (α := ℚ),
      least_eq, point_eq, greatest_eq, mul_lt_mul_iff_left₀ unit, mul_lt_mul_iff_left₀ unit]
    exact ⟨fun ⟨low, high⟩ => ⟨low.le, high.le, fun _ => ⟨low, high⟩⟩, fun h => h.odd (by omega)⟩

/-- The point of a grid that is taken is rounded to the float. -/
theorem rounds_of_onGrid? (pos : 0 < m) (h : onGrid? m e k = some d) : Rounds m e (d * 10 ^ k) := by
  rw [onGrid?_eq] at h
  split at h
  case isTrue near =>
    obtain rfl := Option.some.inj h
    exact (inside_iff pos).1 near
  case isFalse =>
    split at h
    case isTrue far =>
      obtain rfl := Option.some.inj h
      exact (inside_iff pos).1 far
    case isFalse => cases h

/-- The nearest point is at most half a unit of the grid away. -/
theorem nearPoint_bounds (m : Nat) (e k : Int) : (2 * nearPoint m e k - 1) * 10 ^ k ≤ 2 * (m * 2 ^ e : ℚ) ∧
    2 * (m * 2 ^ e : ℚ) ≤ (2 * nearPoint m e k + 1) * 10 ^ k := by
  have unit : (0 : ℚ) < (powerOfTwo e).2 * (Nat.pow 10 (-k).toNat : Nat) := by
    exact_mod_cast Nat.mul_pos (powerOfTwo_pos e).2 (powerOfTen_pos _)
  have number : ((m * (powerOfTwo e).1 * Nat.pow 10 (-k).toNat : Nat) : ℚ)
      = m * 2 ^ e * ((powerOfTwo e).2 * (Nat.pow 10 (-k).toNat : Nat)) := by
    rw [Nat.cast_mul, Nat.cast_mul, powerOfTwo_eq]
    ring
  have step : (((powerOfTwo e).2 * Nat.pow 10 k.toNat : Nat) : ℚ)
      = 10 ^ k * ((powerOfTwo e).2 * (Nat.pow 10 (-k).toNat : Nat)) := by
    rw [Nat.cast_mul, powerOfTen_eq]
    ring
  obtain ⟨low, high, -⟩ := Binary64.roundDiv_near (n := m * (powerOfTwo e).1 * Nat.pow 10 (-k).toNat)
    (Nat.mul_pos (powerOfTwo_pos e).2 (powerOfTen_pos k.toNat))
  have low : (2 * nearPoint m e k * ((powerOfTwo e).2 * Nat.pow 10 k.toNat : Nat) : ℚ)
      ≤ 2 * (m * (powerOfTwo e).1 * Nat.pow 10 (-k).toNat : Nat) + ((powerOfTwo e).2 * Nat.pow 10 k.toNat : Nat) := by
    exact_mod_cast low
  have high : (2 * (m * (powerOfTwo e).1 * Nat.pow 10 (-k).toNat : Nat) : ℚ)
      ≤ (2 * nearPoint m e k + 1) * ((powerOfTwo e).2 * Nat.pow 10 k.toNat : Nat) := by exact_mod_cast high
  rw [number, step] at low high
  constructor
  · apply le_of_mul_le_mul_right _ unit
    linarith
  · apply le_of_mul_le_mul_right _ unit
    linarith

/-- A grid that is finer than the room below the float has a point there. -/
theorem onGrid?_ne_none (pos : 0 < m) (fine : 2 * (10 : ℚ) ^ k < 2 ^ e) : onGrid? m e k ≠ none := by
  obtain ⟨low, high⟩ := nearPoint_bounds m e k
  have unit : (0 : ℚ) < 2 ^ e := by positivity
  have room : (1 : ℚ) ≤ slack m e := by exact_mod_cast Binary64.slack_pos m e
  have below : (4 * m - slack m e : ℚ) * 2 ^ e < 4 * (nearPoint m e k * 10 ^ k) := by nlinarith
  have above : (4 * (nearPoint m e k * 10 ^ k) : ℚ) < (4 * m + 2) * 2 ^ e := by nlinarith
  have rounds : Rounds m e (nearPoint m e k * 10 ^ k) := ⟨below.le, above.le, fun _ => ⟨below, above⟩⟩
  rw [onGrid?_eq, if_pos ((inside_iff pos).2 rounds)]
  exact Option.some_ne_none _

/-! ## 4. The search -/

/-- The search ends before the digits run out. -/
theorem shortestFrom_spec (pos : 0 < m) {exponent : Int} (fine : 2 * (10 : ℚ) ^ (exponent - 17) < 2 ^ e) (fuel n : Nat)
    (left : n + fuel = 19) (more : 0 < fuel) : exponent - 17 ≤ (shortestFrom m e exponent fuel n).2 ∧
      Rounds m e ((shortestFrom m e exponent fuel n).1 * 10 ^ (shortestFrom m e exponent fuel n).2) := by
  -- Induction on the fuel: if no point is found, the next grid has one digit more, and the last one has a point.
  induction fuel generalizing n with
  | zero => omega
  | succ fuel ih =>
    unfold shortestFrom
    dsimp only
    cases found : onGrid? m e (exponent - Int.ofNat n + 1) with
    | some d => 
      have digits : Int.ofNat n = (n : Int) := rfl
      exact ⟨by dsimp only; omega, rounds_of_onGrid? pos found⟩
    | none =>
      apply ih (n + 1) (by omega)
      by_contra last
      obtain rfl : n = 18 := by omega
      have same : exponent - Int.ofNat 18 + 1 = exponent - 17 := by
        show exponent - (18 : Int) + 1 = _
        omega
      rw [same] at found
      exact onGrid?_ne_none pos fine found

/-- The shortest decimal of a float is rounded to it, and its last digit is not too small. -/
theorem rounds_shortest (pos : 0 < m) (short : m < 2 ^ 53) (low : -1074 ≤ e) (high : e < 972) :
    -400 ≤ (shortest m e).2 ∧ Rounds m e ((shortest m e).1 * 10 ^ (shortest m e).2) := by
  obtain ⟨up, down⟩ := powerOfTwo_pos e
  have hn : m * (powerOfTwo e).1 ≠ 0 := (Nat.mul_pos pos up).ne'
  have least : e.toNat ≤ (m * (powerOfTwo e).1).log2 := (Nat.le_log2 hn).2 (Nat.le_mul_of_pos_left _ pos)
  have most : (m * (powerOfTwo e).1).log2 < 53 + e.toNat := by
    rw [Nat.log2_lt hn, pow_add]
    exact Nat.mul_lt_mul_of_pos_right short up
  have den : ((powerOfTwo e).2).log2 = (-e).toNat := Nat.log2_two_pow
  obtain ⟨t, digits⟩ : ∃ t : Int, ((m * (powerOfTwo e).1).log2 : Int) - (powerOfTwo e).2.log2 = t := ⟨_, rfl⟩
  obtain ⟨begins, estimate⟩ := decimalExponent_bounds hn down.ne' digits (by omega) (by omega)
  have fine : 2 * (10 : ℚ) ^ (decimalExponent (m * (powerOfTwo e).1) (powerOfTwo e).2 - 17) < 2 ^ e := by
    -- The grid with eighteen digits is fine enough, as 2^54 is less than 10^17.
    generalize decimalExponent (m * (powerOfTwo e).1) (powerOfTwo e).2 = exponent at begins
    have unit : (0 : ℚ) < (powerOfTwo e).2 := by exact_mod_cast down
    have short : (m : ℚ) < 2 ^ 53 := by exact_mod_cast short
    have number : (10 : ℚ) ^ exponent ≤ m * 2 ^ e := by
      rw [Nat.cast_mul, powerOfTwo_eq] at begins
      apply le_of_mul_le_mul_right _ unit
      linarith
    have split : (10 : ℚ) ^ exponent = 10 ^ (exponent - 17) * 10 ^ 17 := by
      rw [← zpow_natCast, ← zpow_add₀ (by norm_num)]
      congr 1
      omega
    have positive : (0 : ℚ) < 2 ^ e := by positivity
    have above : (0 : ℚ) < 10 ^ (exponent - 17) := by positivity
    have below : (m : ℚ) * 2 ^ e < 2 ^ 53 * 2 ^ e := by gcongr
    rw [split] at number
    norm_num at number below
    linarith
  obtain ⟨last, rounds⟩ := shortestFrom_spec pos fine 18 1 rfl (by decide)
  have last : decimalExponent (m * (powerOfTwo e).1) (powerOfTwo e).2 - 17 ≤ (shortest m e).2 := last
  exact ⟨by omega, rounds⟩

end SealedFields.Number
