import SealedFields.Proofs.Number.Bits
import SealedFields.Proofs.Number.Nearest

/-!
# The float nearest to a number

A quotient has the bits of a float exactly if it lies among the numbers that are rounded to it. So the nearest float
is unique, grows with the number, and is not farther from it than any other float.
-/

namespace SealedFields.Number.Binary64

variable {m m' n num den : Nat} {e e' : Int} {v w : ℚ}

/-! ## 1. Mantissas and exponents -/

/-- Bits determine mantissa and exponent. -/
theorem canonical_inj (canonical : Canonical m e) (canonical' : Canonical m' e')
    (same : (e + 1074).toNat * 2 ^ 52 + m = (e' + 1074).toNat * 2 ^ 52 + m') : m = m' ∧ e = e' := by
  obtain ⟨short, least, normal⟩ := canonical
  obtain ⟨short', least', normal'⟩ := canonical'
  omega

/-- Greater bits stand for a greater number. -/
theorem value_le_of_bits_le (canonical : Canonical m e) (canonical' : Canonical m' e')
    (le : (e + 1074).toNat * 2 ^ 52 + m ≤ (e' + 1074).toNat * 2 ^ 52 + m') : (m : ℚ) * 2 ^ e ≤ m' * 2 ^ e' := by
  obtain ⟨short, least, normal⟩ := canonical
  obtain ⟨short', least', normal'⟩ := canonical'
  rcases lt_trichotomy e e' with less | rfl | more
  · have full : 2 ^ 52 ≤ m' := normal'.resolve_right (by omega)
    calc (m : ℚ) * 2 ^ e ≤ 2 ^ 53 * 2 ^ e := by
          gcongr
          exact_mod_cast short.le
      _ = 2 ^ 52 * 2 ^ (e + 1) := by
        rw [zpow_add_one₀ two_ne_zero]
        ring
      _ ≤ m' * 2 ^ e' := by
        gcongr
        · exact_mod_cast full
        · exact one_le_two
        · omega
  · have le : m ≤ m' := by omega
    gcongr
  · omega

/-! ## 2. Nearest floats -/

/-- `m · 2^e` is the float nearest to `v`. -/
structure IsNearest (m : Nat) (e : Int) (v : ℚ) : Prop where
  canonical : Canonical m e
  pos : 0 < m
  most : e < 972
  rounds : Rounds m e v

theorem IsNearest.bits (h : IsNearest m e v) (value : (num : ℚ) = v * den) (hd : den ≠ 0) :
    nearestBits num den = (e + 1074).toNat * 2 ^ 52 + m := by
  have short := h.canonical.short
  have most := h.most
  rw [nearestBits_of_rounds value hd h.canonical h.pos h.rounds]
  omega

/-- A quotient with the bits of a float lies among the numbers that are rounded to it. -/
theorem rounds_of_nearestBits (value : (num : ℚ) = v * den) (hn : num ≠ 0) (hd : den ≠ 0) (canonical : Canonical m e)
    (most : e < 972) (bits : nearestBits num den = (e + 1074).toNat * 2 ^ 52 + m) : Rounds m e v := by
  obtain ⟨least, below, above⟩ := exponentFor_bounds hn hd
  rw [nearestBits_eq hn hd] at bits
  generalize exponentFor num den = t at *
  have bounds := fun q => roundDiv_scaled_bounds (e := t) (q := q) value hd
  have wide := mantissa_le below
  have full : t = -1074 ∨ 2 ^ 52 ≤ roundDiv (num * (powerOfTwo t).2) (den * (powerOfTwo t).1) :=
    above.imp_right (le_mantissa hd)
  generalize roundDiv (num * (powerOfTwo t).2) (den * (powerOfTwo t).1) = q at *
  obtain ⟨low, high, odd⟩ := bounds q rfl
  have short := canonical.short
  have unit : (0 : ℚ) < 2 ^ t := by positivity
  by_cases carry : q = 2 ^ 53
  · -- Rounded up to a power of two, which has the next exponent, and half the room below.
    obtain ⟨rfl, rfl⟩ : m = 2 ^ 52 ∧ e = t + 1 :=
      canonical_inj canonical ⟨by decide, by omega, .inl le_rfl⟩ (by omega)
    have room : slack (2 ^ 52) (t + 1) = 1 := if_pos ⟨rfl, by omega⟩
    have double : (2 : ℚ) ^ (t + 1) = 2 * 2 ^ t := by
      rw [zpow_add_one₀ two_ne_zero]
      ring
    rw [carry] at low high
    push_cast at low high
    constructor
    · rw [room, double]
      push_cast
      linarith
    · rw [double]
      push_cast
      linarith
    · intro h
      exact absurd h (by decide)
  · obtain ⟨rfl, rfl⟩ : m = q ∧ e = t := canonical_inj canonical ⟨by omega, least, full.symm⟩ (by omega)
    have room : (4 * m - slack m e) * 2 ^ e ≤ 4 * v := by
      unfold slack
      split
      case isTrue dense =>
        -- There is no number below the power of two that has this exponent.
        have positive : (0 : ℚ) < den := by exact_mod_cast Nat.pos_of_ne_zero hd
        have least : (2 : ℚ) ^ 52 * 2 ^ e ≤ v := by
          have above := above.resolve_left dense.2
          rw [value] at above
          exact le_of_mul_le_mul_right above positive
        rw [dense.1]
        push_cast
        linarith
      case isFalse =>
        push_cast
        linarith
    refine ⟨room, by linarith, fun h => ?_⟩
    have even : (2 ^ 52) % 2 = 0 := by decide
    have sparse : ¬ (m = 2 ^ 52 ∧ e ≠ -1074) := by
      rintro ⟨rfl, -⟩
      omega
    obtain ⟨low, high⟩ := odd h
    rw [slack, if_neg sparse]
    push_cast
    constructor <;> linarith

/-- A number is rounded to itself. -/
theorem isNearest_self (canonical : Canonical m e) (pos : 0 < m) (most : e < 972) : IsNearest m e (m * 2 ^ e) :=
  ⟨canonical, pos, most, rounds_self m e⟩

/-- A whole number of at most 53 bits, moved up to a full mantissa. -/
theorem full_mantissa (pos : 0 < n) (short : n < 2 ^ 53) :
    2 ^ 52 ≤ n * 2 ^ (52 - n.log2) ∧ n * 2 ^ (52 - n.log2) < 2 ^ 53 := by
  have low := Nat.log2_self_le pos.ne'
  have high := Nat.lt_log2_self (n := n)
  have bits : n.log2 < 53 := (Nat.log2_lt pos.ne').2 short
  generalize n.log2 = j at *
  have whole : 2 ^ j * 2 ^ (52 - j) = 2 ^ 52 := by rw [← pow_add, Nat.add_sub_cancel' (by omega)]
  constructor
  · exact whole ▸ Nat.mul_le_mul_right _ low
  · calc n * 2 ^ (52 - j) < 2 ^ (j + 1) * 2 ^ (52 - j) := Nat.mul_lt_mul_of_pos_right high (by positivity)
      _ = 2 ^ 53 := by rw [pow_succ, mul_right_comm, whole, ← pow_succ]

theorem scaled_eq {i j : Nat} (le : i ≤ j) (n : Nat) : ((n * 2 ^ (j - i) : Nat) : ℚ) * 2 ^ ((i : Int) - j) = n := by
  have whole : (i : Int) - j = -((j - i : Nat) : Int) := by omega
  rw [whole, zpow_neg, zpow_natCast]
  push_cast
  rw [mul_inv_cancel_right₀ (by positivity)]

/-- A number with at most 53 bits is a float. -/
theorem exists_float {t : Int} (pos : 0 < n) (short : n < 2 ^ 53) (least : -1022 ≤ t) (most : t < 972) :
    ∃ m e, IsNearest m e (n * 2 ^ t) ∧ (m : ℚ) * 2 ^ e = n * 2 ^ t := by
  obtain ⟨up, down⟩ := full_mantissa pos short
  have bits : n.log2 < 53 := (Nat.log2_lt pos.ne').2 short
  have value : ((n * 2 ^ (52 - n.log2) : Nat) : ℚ) * 2 ^ (t + ((n.log2 : Int) - 52)) = n * 2 ^ t := by
    have whole := scaled_eq (i := n.log2) (j := 52) (by omega) n
    rw [zpow_add₀ two_ne_zero, mul_left_comm, mul_comm (n : ℚ)]
    exact congrArg (2 ^ t * ·) whole
  refine ⟨n * 2 ^ (52 - n.log2), t + ((n.log2 : Int) - 52), ?_, value⟩
  rw [← value]
  exact isNearest_self ⟨down, by omega, .inl up⟩ (by omega) (by omega)

theorem exists_fraction (v : ℚ) (nonneg : 0 ≤ v) : ∃ num den : Nat, den ≠ 0 ∧ (num : ℚ) = v * den := by
  refine ⟨v.num.toNat, v.den, v.den_nz, ?_⟩
  have num : ((v.num.toNat : Nat) : Int) = v.num := Int.toNat_of_nonneg (Rat.num_nonneg.2 nonneg)
  rw [← Int.cast_natCast, num, Rat.mul_den_eq_num]

theorem Rounds.value_pos (h : Rounds m e v) (pos : 0 < m) : 0 < v := by
  have unit : (0 : ℚ) < 2 ^ e := by positivity
  have half : (slack m e : ℚ) ≤ 2 := by exact_mod_cast slack_le_two m e
  have positive : (1 : ℚ) ≤ m := by exact_mod_cast pos
  have low := h.low
  have room : (0 : ℚ) < (4 * m - slack m e) * 2 ^ e := by
    apply mul_pos _ unit
    linarith
  linarith

theorem IsNearest.mono (h : IsNearest m e v) (h' : IsNearest m' e' w) (le : v ≤ w) :
    (m : ℚ) * 2 ^ e ≤ m' * 2 ^ e' := by
  obtain ⟨num, den, hd, value⟩ := exists_fraction v (h.rounds.value_pos h.pos).le
  obtain ⟨num', den', hd', value'⟩ := exists_fraction w (h'.rounds.value_pos h'.pos).le
  have le : num * den' ≤ num' * den := by
    have cross : (num : ℚ) * den' ≤ num' * den := by
      rw [value, value', mul_right_comm v, mul_right_comm w]
      rw [mul_assoc, mul_assoc, mul_comm (den : ℚ)]
      gcongr
    exact_mod_cast cross
  have bits := nearestBits_le_nearestBits hd hd' le
  rw [h.bits value hd, h'.bits value' hd'] at bits
  exact value_le_of_bits_le h.canonical h'.canonical bits

/-- What reaches a power of two among the floats reaches it as a float. -/
theorem IsNearest.power_le {t : Int} (h : IsNearest m e v) (least : -1022 ≤ t) (most : t < 972) (le : 2 ^ t ≤ v) :
    2 ^ t ≤ (m : ℚ) * 2 ^ e := by
  obtain ⟨m', e', power, value⟩ := exists_float (n := 1) one_pos (by decide) least most
  rw [Nat.cast_one, one_mul] at power value
  exact value ▸ power.mono h le

theorem IsNearest.le_power {t : Int} (h : IsNearest m e v) (least : -1022 ≤ t) (most : t < 972) (le : v ≤ 2 ^ t) :
    (m : ℚ) * 2 ^ e ≤ 2 ^ t := by
  obtain ⟨m', e', power, value⟩ := exists_float (n := 1) one_pos (by decide) least most
  rw [Nat.cast_one, one_mul] at power value
  exact value ▸ h.mono power le

theorem IsNearest.unique (h : IsNearest m e v) (h' : IsNearest m' e' v) : m = m' ∧ e = e' := by
  obtain ⟨num, den, hd, value⟩ := exists_fraction v (h.rounds.value_pos h.pos).le
  have bits := h.bits value hd
  rw [h'.bits value hd] at bits
  exact canonical_inj h.canonical h'.canonical bits.symm

/-- The nearest float differs from a number that is not tiny by at most a part of `2^53`. -/
theorem IsNearest.relative (h : IsNearest m e v) (least : 2 ^ (-1022 : Int) ≤ v) :
    (2 ^ 53 - 1) * ((m : ℚ) * 2 ^ e) ≤ 2 ^ 53 * v ∧ 2 ^ 53 * v ≤ (2 ^ 53 + 1) * ((m : ℚ) * 2 ^ e) := by
  have unit : (0 : ℚ) < 2 ^ e := by positivity
  have full : (2 : ℚ) ^ 52 ≤ m := by
    rcases h.canonical.normal with full | tiny
    · exact_mod_cast full
    · -- Even with the least exponent the number has a full mantissa.
      have least := h.power_le (by decide) (by decide) least
      have power : (2 : ℚ) ^ (-1022 : Int) = 2 ^ 52 * 2 ^ (-1074 : Int) := by
        rw [← zpow_natCast, ← zpow_add₀ two_ne_zero]
        rfl
      rw [tiny, power] at least
      exact le_of_mul_le_mul_right least (by positivity)
  have full := mul_le_mul_of_nonneg_right full unit.le
  have half : (slack m e : ℚ) ≤ 2 := by exact_mod_cast slack_le_two m e
  have half := mul_le_mul_of_nonneg_right half unit.le
  obtain ⟨low, high, -⟩ := h.rounds
  constructor <;> linarith

/-- With an exponent that leaves 53 bits, the nearest float is the rounded mantissa. -/
theorem IsNearest.value_eq {t : Int} (h : IsNearest m e v) (value : (num : ℚ) = v * den) (hn : num ≠ 0) (hd : den ≠ 0)
    (least : -1074 ≤ t) (below : (num : ℚ) < 2 ^ 53 * 2 ^ t * den) (above : (2 : ℚ) ^ 52 * 2 ^ t * den ≤ num) :
    (m : ℚ) * 2 ^ e = roundDiv (num * (powerOfTwo t).2) (den * (powerOfTwo t).1) * 2 ^ t := by
  have bits := h.bits value hd
  rw [nearestBits_eq hn hd, exponentFor_eq hn hd least below (.inr above)] at bits
  have wide := mantissa_le below
  have full := le_mantissa hd above
  generalize roundDiv (num * (powerOfTwo t).2) (den * (powerOfTwo t).1) = q at *
  have canonical := h.canonical
  have short := canonical.short
  have most := h.most
  by_cases carry : q = 2 ^ 53
  · obtain ⟨rfl, rfl⟩ : m = 2 ^ 52 ∧ e = t + 1 :=
      canonical_inj canonical ⟨by decide, by omega, .inl le_rfl⟩ (by omega)
    rw [carry, zpow_add_one₀ two_ne_zero]
    push_cast
    ring
  · obtain ⟨rfl, rfl⟩ : m = q ∧ e = t := canonical_inj canonical ⟨by omega, least, .inl full⟩ (by omega)
    rfl

/-- A float with the bits of a quotient is the nearest one. -/
theorem exists_isNearest {x : Float} (bits : x.toBits.toNat = nearestBits num den) (value : (num : ℚ) = v * den)
    (hd : den ≠ 0) (normal : den ≤ num * 2 ^ 53) (range : num < overflowBound * den) :
    ∃ m e, ofFloat x = .finite false m e ∧ IsNearest m e v := by
  have hn : num ≠ 0 := by omega
  have finite : ¬ 2047 * 2 ^ 52 ≤ nearestBits num den := mt (infinite_nearestBits_iff hd).1 (not_le.2 range)
  have positive : nearestBits 1 (2 ^ 53) ≤ nearestBits num den :=
    nearestBits_le_nearestBits (by decide) hd (by omega)
  have least : nearestBits 1 (2 ^ 53) = 970 * 2 ^ 52 := by rfl
  have bits : x.toBits.toBitVec.toNat = nearestBits num den := bits
  match hx : ofFloat x with
  | .nan =>
    have fields := ofBits_eq_nan hx
    omega
  | .infinite negative =>
    have fields := ofBits_eq_infinite x.toBits.toBitVec.isLt hx
    omega
  | .finite negative m e =>
    obtain ⟨whole, canonical, most⟩ := ofBits_eq_finite x.toBits.toBitVec.isLt hx
    have short := canonical.short
    cases negative with
    | true =>
      have sign : (if true then 1 else 0) = 1 := rfl
      omega
    | false =>
      have sign : (if false then 1 else 0) = 0 := rfl
      rw [sign] at whole
      have full := canonical.normal
      refine ⟨m, e, rfl, canonical, by omega, most, ?_⟩
      exact rounds_of_nearestBits value hn hd canonical most (by omega)

/-- The whole part of a float from zero up. -/
theorem floor?_finite (m : Nat) (e : Int) : ∃ n : Nat, (finite false m e).floor? = some (n : Int) ∧
    (n : ℚ) ≤ m * 2 ^ e ∧ (m : ℚ) * 2 ^ e < n + 1 := by
  have unit : (0 : ℚ) < (powerOfTwo e).2 := by exact_mod_cast (powerOfTwo_pos e).2
  have value : ((m * (powerOfTwo e).1 : Nat) : ℚ) = m * 2 ^ e * (powerOfTwo e).2 := by
    rw [Nat.cast_mul, powerOfTwo_eq]
    ring
  have low := Nat.div_mul_le_self (m * (powerOfTwo e).1) (powerOfTwo e).2
  have high := Nat.lt_div_mul_add (a := m * (powerOfTwo e).1) (powerOfTwo_pos e).2
  rw [← Nat.cast_le (α := ℚ), value, Nat.cast_mul] at low
  rw [← Nat.cast_lt (α := ℚ), value, Nat.cast_add, Nat.cast_mul, ← add_one_mul] at high
  exact ⟨_, congrArg some (Int.ofNat_fdiv _ _).symm, le_of_mul_le_mul_right low unit,
    lt_of_mul_lt_mul_right high unit.le⟩

theorem nearestBits_le (num den : Nat) : nearestBits num den ≤ 2047 * 2 ^ 52 := by
  by_cases zero : num = 0 ∨ den = 0
  · have none : nearestBits num den = 0 := if_pos zero
    omega
  · rw [not_or] at zero
    rw [nearestBits_eq zero.1 zero.2]
    exact min_le_right _ _

theorem toBits_nearest (num den : Nat) : (nearest false num den).toBits.toNat = nearestBits num den := by
  have most := nearestBits_le num den
  have number : ofBits (nearestBits num den) ≠ .nan := by
    intro h
    have fields := ofBits_eq_nan h
    omega
  have bits : (Float.ofBits (UInt64.ofNat (nearestBits num den))).toBits.toNat = nearestBits num den :=
    toBits_ofBits (by omega) number
  exact bits

/-! ## 3. Neighbours -/

/-- A number with a smaller exponent is smaller, as it has no more than all bits. -/
theorem value_lt_of_exponent_lt (canonical : Canonical m e) (canonical' : Canonical m' e') (less : e < e') :
    2 * ((m : ℚ) * 2 ^ e) ≤ (2 ^ 53 - 1) * 2 ^ e' ∧ 2 ^ 52 ≤ m' := by
  have least := canonical.least
  refine ⟨?_, canonical'.normal.resolve_right (by omega)⟩
  have short : (m : ℚ) ≤ 2 ^ 53 - 1 := by
    have : (m : ℚ) + 1 ≤ 2 ^ 53 := by exact_mod_cast canonical.short
    linarith
  calc 2 * ((m : ℚ) * 2 ^ e) = m * 2 ^ (e + 1) := by
        rw [zpow_add_one₀ two_ne_zero]
        ring
    _ ≤ (2 ^ 53 - 1) * 2 ^ e' := by
      gcongr
      · exact one_le_two
      · omega

/-- A number with a greater exponent is greater. -/
theorem exponent_le_of_value_le (canonical : Canonical m e) (canonical' : Canonical m' e')
    (le : (m : ℚ) * 2 ^ e ≤ m' * 2 ^ e') : e ≤ e' := by
  by_contra more
  obtain ⟨less, full⟩ := value_lt_of_exponent_lt canonical' canonical (not_le.1 more)
  have unit : (0 : ℚ) < 2 ^ e := by positivity
  have full : (2 : ℚ) ^ 52 ≤ m := by exact_mod_cast full
  nlinarith

theorem value_of_exponent_le (m : Nat) (le : e ≤ e') : (m : ℚ) * 2 ^ e' = (m * 2 ^ (e' - e).toNat : Nat) * 2 ^ e := by
  have split : e' = (e' - e).toNat + e := by omega
  nth_rewrite 1 [split]
  rw [zpow_add₀ two_ne_zero, zpow_natCast]
  push_cast
  ring

/-- The next float above is at least one unit away. -/
theorem succ_le_of_lt (canonical : Canonical m e) (canonical' : Canonical m' e')
    (less : (m : ℚ) * 2 ^ e < m' * 2 ^ e') : ((m : ℚ) + 1) * 2 ^ e ≤ m' * 2 ^ e' := by
  have unit : (0 : ℚ) < 2 ^ e := by positivity
  rcases lt_or_ge e' e with below | above
  · obtain ⟨most, full⟩ := value_lt_of_exponent_lt canonical' canonical below
    have full : (2 : ℚ) ^ 52 ≤ m := by exact_mod_cast full
    nlinarith
  · rw [value_of_exponent_le m' above] at less ⊢
    have less : m + 1 ≤ m' * 2 ^ (e' - e).toNat := by exact_mod_cast lt_of_mul_lt_mul_right less unit.le
    gcongr
    exact_mod_cast less

/-- The next float below is at least one unit away, or half a unit where the numbers below are denser. -/
theorem le_pred_of_lt (canonical : Canonical m e) (canonical' : Canonical m' e')
    (less : (m' : ℚ) * 2 ^ e' < m * 2 ^ e) : 2 * ((m' : ℚ) * 2 ^ e') ≤ (2 * m - slack m e) * 2 ^ e := by
  have unit : (0 : ℚ) < 2 ^ e := by positivity
  rcases lt_or_ge e' e with below | above
  · obtain ⟨most, full⟩ := value_lt_of_exponent_lt canonical' canonical below
    have room : (2 ^ 53 - 1 : ℚ) ≤ 2 * m - slack m e := by
      have least := canonical'.least
      unfold slack
      split
      case isTrue dense =>
        rw [dense.1]
        norm_num
      case isFalse sparse =>
        have more : 2 ^ 52 + 1 ≤ m := by omega
        have more : (2 : ℚ) ^ 52 + 1 ≤ m := by exact_mod_cast more
        push_cast
        linarith
    nlinarith
  · have half : (slack m e : ℚ) ≤ 2 := by exact_mod_cast slack_le_two m e
    rw [value_of_exponent_le m' above] at less ⊢
    have less : m' * 2 ^ (e' - e).toNat + 1 ≤ m := by exact_mod_cast lt_of_mul_lt_mul_right less unit.le
    have less : ((m' * 2 ^ (e' - e).toNat : Nat) : ℚ) + 1 ≤ m := by exact_mod_cast less
    nlinarith

/-! ## 4. Distances -/

/-- No float below the nearest one is closer to the number. -/
theorem IsNearest.closer_of_lt (h : IsNearest m e v) (canonical' : Canonical m' e')
    (less : (m' : ℚ) * 2 ^ e' < m * 2 ^ e) : m * 2 ^ e - v ≤ v - m' * 2 ^ e' := by
  have low := h.rounds.low
  have gap := le_pred_of_lt h.canonical canonical' less
  linarith

/-- No float above the nearest one is closer to the number. -/
theorem IsNearest.closer_of_gt (h : IsNearest m e v) (canonical' : Canonical m' e')
    (more : (m : ℚ) * 2 ^ e < m' * 2 ^ e') : v - m * 2 ^ e ≤ m' * 2 ^ e' - v := by
  have high := h.rounds.high
  have gap := succ_le_of_lt h.canonical canonical' more
  linarith

/-- What reaches the numbers that are rounded to a float is rounded to it or up. -/
theorem IsNearest.reaches (h : IsNearest m e v) (h' : IsNearest m' e' w) (low : (4 * m' - slack m' e') * 2 ^ e' ≤ 4 * v)
    (odd : m' % 2 = 1 → (4 * m' - slack m' e') * 2 ^ e' < 4 * v) : (m' : ℚ) * 2 ^ e' ≤ m * 2 ^ e := by
  have self := isNearest_self h'.canonical h'.pos h'.most
  have unit : (0 : ℚ) < 2 ^ e' := by positivity
  rcases le_total v (m' * 2 ^ e') with below | above
  · have rounds : Rounds m' e' v := ⟨low, by linarith, fun h => ⟨odd h, by linarith⟩⟩
    obtain ⟨rfl, rfl⟩ := h.unique ⟨h'.canonical, h'.pos, h'.most, rounds⟩
    exact le_rfl
  · exact self.mono h above

/-- What is below the numbers that are rounded to a float is rounded down past it. -/
theorem IsNearest.misses (h : IsNearest m e v) (h' : IsNearest m' e' w)
    (below : 4 * v < (4 * m' - slack m' e') * 2 ^ e') : (m : ℚ) * 2 ^ e < m' * 2 ^ e' := by
  have self := isNearest_self h'.canonical h'.pos h'.most
  have low := h.rounds.low
  by_contra not
  rcases (not_lt.1 not).lt_or_eq with less | same
  · have gap := le_pred_of_lt h.canonical h'.canonical less
    have room : (0 : ℚ) ≤ slack m' e' * 2 ^ e' := by positivity
    have room' : (0 : ℚ) ≤ slack m e * 2 ^ e := by positivity
    linarith
  · rw [same] at self
    obtain ⟨rfl, rfl⟩ := self.unique (isNearest_self h.canonical h.pos h.most)
    linarith

/-- A product is rounded to `p`, and `p` divided again to `y`. If that is not the number that was multiplied, it is
as close to the quotient on the other side, so that its own product is rounded to `p` as well. -/
theorem isNearest_mul_of_div {mp my : Nat} {ep ey : Int} {s : ℚ} (hs : 0 < s) (canonical : Canonical m e)
    (hp : IsNearest mp ep (s * (m * 2 ^ e))) (hy : IsNearest my ey (mp * 2 ^ ep / s))
    (room : slack mp ep = 2 ∨ mp * 2 ^ ep ≤ s * (my * 2 ^ ey)) : IsNearest mp ep (s * (my * 2 ^ ey)) := by
  obtain ⟨canonical', pos, most, low, high, odd⟩ := hp
  refine ⟨canonical', pos, most, ?_⟩
  have quotient : s * (mp * 2 ^ ep / s) = mp * 2 ^ ep := mul_div_cancel₀ _ hs.ne'
  have half : (slack mp ep : ℚ) ≤ 2 := by exact_mod_cast slack_le_two mp ep
  have unit : (0 : ℚ) < 2 ^ ep := by positivity
  have half : (slack mp ep : ℚ) * 2 ^ ep ≤ 2 * 2 ^ ep := by gcongr
  rcases lt_trichotomy ((m : ℚ) * 2 ^ e) (my * 2 ^ ey) with less | same | more
  · have closer := mul_le_mul_of_nonneg_left (hy.closer_of_lt canonical less) hs.le
    have less := mul_lt_mul_of_pos_left less hs
    rw [mul_sub, mul_sub, quotient] at closer
    refine ⟨by linarith, by linarith, fun h => ?_⟩
    obtain ⟨low, high⟩ := odd h
    constructor <;> linarith
  · rw [← same]
    exact ⟨low, high, odd⟩
  · have closer := mul_le_mul_of_nonneg_left (hy.closer_of_gt canonical more) hs.le
    have more := mul_lt_mul_of_pos_left more hs
    rw [mul_sub, mul_sub, quotient] at closer
    have room : (4 * mp - slack mp ep) * 2 ^ ep ≤ 4 * (s * (my * 2 ^ ey)) ∧
        (mp % 2 = 1 → (4 * mp - slack mp ep) * 2 ^ ep < 4 * (s * (my * 2 ^ ey))) := by
      rcases room with wide | above
      · rw [wide]
        push_cast
        exact ⟨by linarith, fun h => by linarith [(odd h).2]⟩
      · have some : (0 : ℚ) < slack mp ep * 2 ^ ep := mul_pos (by exact_mod_cast slack_pos mp ep) unit
        exact ⟨by linarith, fun _ => by linarith⟩
    refine ⟨room.1, by linarith, fun h => ⟨room.2 h, ?_⟩⟩
    linarith [(odd h).2]

end SealedFields.Number.Binary64
