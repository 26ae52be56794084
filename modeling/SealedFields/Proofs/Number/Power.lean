import SealedFields.Number.Power
import SealedFields.Proofs.Number.FloatBounds
import SealedFields.Proofs.Number.Neighbours
import SealedFields.Proofs.Number.Quotient

/-!
# Powers that are too large

A power is enclosed by squaring and trimming, so that the question whether a float can hold it has an exact answer. For
a number from one up, raising it to a natural number fails exactly if the exponent or the power is too large.
-/

namespace SealedFields.Number

/-! ## 1. Trimmed powers -/

namespace Magnitude

variable {a b : Magnitude} {trim : Magnitude → Magnitude} {bits k c : Nat}

def value (a : Magnitude) : Nat := a.mantissa * 2 ^ a.exponent

theorem value_ofNat (n : Nat) : (ofNat n).value = n := Nat.mul_one n

theorem value_mul (a b : Magnitude) : (a.mul b).value = a.value * b.value := by
  show a.mantissa * b.mantissa * 2 ^ (a.exponent + b.exponent) = _
  rw [pow_add]
  exact Nat.mul_mul_mul_comm _ _ _ _

theorem value_trimDown_le (a : Magnitude) : a.trimDown.value ≤ a.value := by
  calc a.mantissa / 2 ^ a.excess * 2 ^ (a.exponent + a.excess)
      = a.mantissa / 2 ^ a.excess * 2 ^ a.excess * 2 ^ a.exponent := by ring
    _ ≤ a.mantissa * 2 ^ a.exponent := Nat.mul_le_mul_right _ (Nat.div_mul_le_self _ _)

theorem le_value_trimUp (a : Magnitude) : a.value ≤ a.trimUp.value := by
  have unit : 0 < 2 ^ a.excess := Nat.two_pow_pos _
  have whole := Nat.lt_div_mul_add (a := a.mantissa + (2 ^ a.excess - 1)) unit
  calc a.mantissa * 2 ^ a.exponent
      ≤ (a.mantissa + (2 ^ a.excess - 1)) / 2 ^ a.excess * 2 ^ a.excess * 2 ^ a.exponent :=
        Nat.mul_le_mul_right _ (by omega)
    _ = (a.mantissa + (2 ^ a.excess - 1)) / 2 ^ a.excess * 2 ^ (a.exponent + a.excess) := by ring

theorem mantissa_pos_of_value (pos : 0 < a.value) : 0 < a.mantissa := Nat.pos_of_mul_pos_right pos

theorem mantissa_trimDown_pos (pos : 0 < a.mantissa) : 0 < a.trimDown.mantissa := by
  -- The leading bit is never trimmed.
  have short : a.excess ≤ a.mantissa.log2 := by
    unfold excess precision
    omega
  have le : 2 ^ a.excess ≤ a.mantissa := (Nat.pow_le_pow_right Nat.two_pos short).trans (Nat.log2_self_le pos.ne')
  exact Nat.div_pos le (Nat.two_pow_pos _)

/-- Trimming in one direction bounds powers in that direction. -/
theorem value_pow {R : Nat → Nat → Prop} [Std.Refl R] [IsTrans Nat R]
    (mul : ∀ {m m' n n'}, R m m' → R n n' → R (m * n) (m' * n')) (trims : ∀ a, R (trim a).value a.value)
    (a : Magnitude) (fits : k < 2 ^ bits) : R (pow trim a bits k).value (a.value ^ k) := by
  induction bits generalizing k with
  | zero =>
    obtain rfl : k = 0 := by omega
    show R (1 * 2 ^ 0) _
    exact Std.Refl.refl (r := R) _
  | succ bits ih =>
    have half := ih (k := k / 2) (by omega)
    have square := IsTrans.trans _ _ _ (trims ((pow trim a bits (k / 2)).mul (pow trim a bits (k / 2))))
      (value_mul _ _ ▸ mul half half)
    rw [← pow_add, ← two_mul] at square
    unfold pow
    dsimp only
    split
    case isTrue odd =>
      have whole : a.value ^ k = a.value ^ (2 * (k / 2)) * a.value := by
        rw [← pow_succ]
        congr 1
        omega
      rw [whole]
      exact IsTrans.trans _ _ _ (trims _) (value_mul _ _ ▸ mul square (Std.Refl.refl (r := R) _))
    case isFalse even =>
      have whole : k = 2 * (k / 2) := by omega
      rw [← whole] at square
      exact square

theorem mantissa_pow_pos (trims : ∀ a : Magnitude, 0 < a.mantissa → 0 < (trim a).mantissa) (pos : 0 < a.mantissa)
    (bits k : Nat) : 0 < (pow trim a bits k).mantissa := by
  induction bits generalizing k with
  | zero => exact Nat.one_pos
  | succ bits ih =>
    have half := ih (k / 2)
    have square := trims ((pow trim a bits (k / 2)).mul (pow trim a bits (k / 2))) (Nat.mul_pos half half)
    unfold pow
    dsimp only
    split
    case isTrue => exact trims _ (Nat.mul_pos square pos)
    case isFalse => exact square

theorem value_bounds (pos : 0 < a.mantissa) :
    2 ^ (a.mantissa.log2 + a.exponent) ≤ a.value ∧ a.value < 2 ^ (a.mantissa.log2 + a.exponent + 1) := by
  unfold value
  constructor
  · rw [pow_add]
    exact Nat.mul_le_mul_right _ (Nat.log2_self_le pos.ne')
  · rw [add_right_comm, pow_add]
    exact Nat.mul_lt_mul_of_pos_right Nat.lt_log2_self (Nat.two_pow_pos _)

theorem reaches_iff (hc : 0 < c) (hb : 0 < b.mantissa) (ha : 0 < a.mantissa) :
    reaches c b a = true ↔ c * b.value ≤ a.value := by
  obtain ⟨low, above⟩ := value_bounds hb
  obtain ⟨reached, below⟩ := value_bounds ha
  have least : 2 ^ (c.log2 + (b.mantissa.log2 + b.exponent)) ≤ c * b.value := by
    rw [pow_add]
    exact Nat.mul_le_mul (Nat.log2_self_le hc.ne') low
  have most : c * b.value < 2 ^ (c.log2 + (b.mantissa.log2 + b.exponent) + 2) := by
    calc c * b.value < 2 ^ (c.log2 + 1) * 2 ^ (b.mantissa.log2 + b.exponent + 1) :=
          Nat.mul_lt_mul_of_lt_of_le Nat.lt_log2_self above.le (Nat.two_pow_pos _)
      _ = 2 ^ (c.log2 + (b.mantissa.log2 + b.exponent) + 2) := by ring
  unfold reaches
  dsimp only
  split
  case isTrue far => exact iff_of_true rfl (most.le.trans ((Nat.pow_le_pow_right Nat.two_pos far).trans reached))
  case isFalse =>
    split
    case isTrue short =>
      have gap := Nat.pow_le_pow_right Nat.two_pos (Nat.succ_le_of_lt short)
      exact iff_of_false Bool.false_ne_true (by omega)
    case isFalse =>
      -- Both sides are written out over the smaller exponent.
      rw [decide_eq_true_iff]
      have common : 0 < 2 ^ min a.exponent b.exponent := Nat.two_pow_pos _
      have left : c * b.value
          = c * b.mantissa * 2 ^ (b.exponent - a.exponent) * 2 ^ min a.exponent b.exponent := by
        have split : b.exponent = b.exponent - a.exponent + min a.exponent b.exponent := by omega
        rw [mul_assoc _ (2 ^ _), ← pow_add, ← split, mul_assoc]
        rfl
      have right : a.value = a.mantissa * 2 ^ (a.exponent - b.exponent) * 2 ^ min a.exponent b.exponent := by
        have split : a.exponent = a.exponent - b.exponent + min a.exponent b.exponent := by omega
        rw [mul_assoc, ← pow_add, ← split]
        rfl
      rw [left, right]
      exact (Nat.mul_le_mul_right_iff common).symm

end Magnitude

theorem leastInfinite_eq : leastInfinite = Binary64.overflowBound := by
  unfold leastInfinite Binary64.overflowBound
  -- The power is not written out.
  generalize 970 = n
  rfl

/-- The enclosure never decides wrongly, and what it leaves open is written out. -/
theorem isPowerInfinite_iff {num den k : Nat} (hn : 0 < num) (hd : 0 < den) :
    isPowerInfinite num den k = true ↔ Binary64.overflowBound * den ^ k ≤ num ^ k := by
  have fits : k < 2 ^ (k.log2 + 1) := Nat.lt_log2_self
  have below (n : Nat) : (Magnitude.pow .trimDown (.ofNat n) (k.log2 + 1) k).value ≤ n ^ k := by
    have bound := Magnitude.value_pow (R := (· ≤ ·)) Nat.mul_le_mul Magnitude.value_trimDown_le (.ofNat n) fits
    rwa [Magnitude.value_ofNat] at bound
  have above (n : Nat) : n ^ k ≤ (Magnitude.pow .trimUp (.ofNat n) (k.log2 + 1) k).value := by
    have bound := Magnitude.value_pow (R := (· ≥ ·)) Nat.mul_le_mul Magnitude.le_value_trimUp (.ofNat n) fits
    rwa [Magnitude.value_ofNat] at bound
  have belowPos {n : Nat} (pos : 0 < n) : 0 < (Magnitude.pow .trimDown (.ofNat n) (k.log2 + 1) k).mantissa :=
    Magnitude.mantissa_pow_pos (fun _ => Magnitude.mantissa_trimDown_pos) pos _ k
  have abovePos {n : Nat} (pos : 0 < n) : 0 < (Magnitude.pow .trimUp (.ofNat n) (k.log2 + 1) k).mantissa :=
    Magnitude.mantissa_pos_of_value ((Nat.pow_pos pos).trans_le (above n))
  have bound : 0 < leastInfinite := by
    rw [leastInfinite_eq]
    unfold Binary64.overflowBound
    positivity
  unfold isPowerInfinite
  dsimp only
  rw [← leastInfinite_eq]
  split
  case isTrue reached =>
    rw [Magnitude.reaches_iff bound (abovePos hd) (belowPos hn)] at reached
    exact iff_of_true rfl ((Nat.mul_le_mul_left _ (above den)).trans (reached.trans (below num)))
  case isFalse =>
    split
    case isTrue missed =>
      rw [Bool.not_eq_true', Bool.eq_false_iff, ne_eq, Magnitude.reaches_iff bound (belowPos hd) (abovePos hn)]
        at missed
      refine iff_of_false Bool.false_ne_true fun reached => missed ?_
      exact (Nat.mul_le_mul_left _ (below den)).trans (reached.trans (above num))
    case isFalse => exact decide_eq_true_iff

/-! ## 2. Exponents as floats -/

namespace Binary64

variable {n m : Nat} {e : Int}

/-- The number that a float stands for; what is not finite counts as zero. -/
def toRat : Binary64 → ℚ
  | .finite false m e => m * 2 ^ e
  | .finite true m e => -(m * 2 ^ e)
  | _ => 0

theorem lt_overflowBound (short : n < 2 ^ 53) : n < overflowBound := by
  unfold overflowBound
  generalize 970 = k
  calc n < 2 ^ 54 - 1 := by omega
    _ ≤ (2 ^ 54 - 1) * 2 ^ k := Nat.le_mul_of_pos_right _ (Nat.two_pow_pos _)

theorem ofInt?_eq_none_iff {i : Int} : ofInt? i = none ↔ overflowBound ≤ i.natAbs := by
  have large : 2047 * 2 ^ 52 ≤ nearestBits i.natAbs 1 ↔ overflowBound * 1 ≤ i.natAbs :=
    infinite_nearestBits_iff one_ne_zero
  generalize overflowBound = bound at large ⊢
  rw [mul_one] at large
  rw [← large]
  show (if nearestBits i.natAbs 1 < 2047 * 2 ^ 52 then some _ else none) = none ↔ _
  split
  case isTrue fits => exact iff_of_false (Option.some_ne_none _) (not_le.2 fits)
  case isFalse large => exact iff_of_true rfl (not_lt.1 large)

theorem ofInt?_succ_cases (n : Nat) : (overflowBound ≤ n + 1 ∧ ofInt? ((n : Int) + 1) = none) ∨
    (¬ overflowBound ≤ n + 1 ∧ ∃ y, ofInt? ((n : Int) + 1) = some y) := by
  have turns : ((n : Int) + 1).natAbs = n + 1 := by omega
  rw [← turns, ← ofInt?_eq_none_iff]
  cases ofInt? ((n : Int) + 1) with
  | none => exact .inl ⟨rfl, rfl⟩
  | some y => exact .inr ⟨Option.some_ne_none y, y, rfl⟩

theorem truncate?_finite (m : Nat) (e : Int) : (finite false m e).truncate? = (finite false m e).floor? :=
  congrArg some (Int.ofNat_fdiv _ _)

theorem rounded_spec (pos : 0 < n) (fits : n < overflowBound) :
    ∃ m e, IsNearest m e n ∧ (rounded n : ℚ) ≤ m * 2 ^ e ∧ (m : ℚ) * 2 ^ e < rounded n + 1 := by
  obtain ⟨m, e, parts, near⟩ := exists_isNearest (x := nearest false n 1) (toBits_nearest n 1)
    (show (n : ℚ) = n * (1 : Nat) by rw [Nat.cast_one, mul_one]) one_ne_zero (by omega) (by rwa [mul_one])
  obtain ⟨k, floor, bounds⟩ := floor?_finite m e
  have whole : rounded n = k := by
    unfold rounded
    rw [parts, truncate?_finite, floor]
    rfl
  rw [whole]
  exact ⟨m, e, near, bounds⟩

/-- Small natural numbers are floats. -/
theorem rounded_of_lt (short : n < 2 ^ 53) : rounded n = n := by
  rcases Nat.eq_zero_or_pos n with rfl | pos
  · decide +kernel
  · obtain ⟨m, e, near, low, high⟩ := rounded_spec pos (lt_overflowBound short)
    obtain ⟨m', e', self, value⟩ := exists_float (t := 0) pos short (by decide) (by decide)
    rw [zpow_zero, mul_one] at self value
    obtain ⟨rfl, rfl⟩ := near.unique self
    rw [value] at low high
    have low : rounded n ≤ n := by exact_mod_cast low
    have high : n < rounded n + 1 := by exact_mod_cast high
    omega

theorem two_pow_le_rounded {t : Nat} (most : t < 972) (le : 2 ^ t ≤ n) (fits : n < overflowBound) :
    2 ^ t ≤ rounded n := by
  obtain ⟨m, e, near, -, high⟩ := rounded_spec ((Nat.two_pow_pos t).trans_le le) fits
  have reached := near.power_le (t := t) (by omega) (by omega) (by exact_mod_cast le)
  have above : 2 ^ t < rounded n + 1 := by
    rw [zpow_natCast] at reached
    exact_mod_cast reached.trans_lt high
  omega

end Binary64

/-! ## 3. Powers of numbers from one up -/

open Binary64

variable {x : Float} {m n : Nat} {e : Int}

/-- No float holds the exponent, or the power. -/
def PowerOverflows (x : Float) (n : Nat) : Prop :=
  overflowBound ≤ n ∨ overflowBound ≤ (ofFloat x).toRat ^ rounded n

theorem exists_finite (one : 1.0 ≤ x) (finite : x.isFinite = true) :
    ∃ m e, ofFloat x = .finite false m e ∧ (1 : ℚ) ≤ m * 2 ^ e := by
  have least : AtLeast 1 1.0 := by decide +kernel
  have finite : x.toModel.unpack.isFinite = true := finite
  rcases (least.of_le one_pos one).cases one_pos with infinite | ⟨m, e, pos, parts, -, -, scaled⟩
  · rw [infinite] at finite
    cases finite
  · refine ⟨m, e, ?_, by exact_mod_cast atMostScaled_iff.1 scaled⟩
    rw [ofFloat_eq, parts]
    rfl

/-- A fraction in lowest terms has the same powers. -/
theorem overflow_lowest_iff {num den : Nat} {v : ℚ} (hn : 0 < num) (hd : 0 < den) (value : (num : ℚ) = v * den)
    (k : Nat) : 0 < num / num.gcd den ∧ 0 < den / num.gcd den ∧
      (overflowBound * (den / num.gcd den) ^ k ≤ (num / num.gcd den) ^ k ↔ (overflowBound : ℚ) ≤ v ^ k) := by
  have common : 0 < num.gcd den := Nat.gcd_pos_of_pos_right _ hd
  have numPos : 0 < num / num.gcd den := Nat.div_pos (Nat.gcd_le_left _ hn) common
  have denPos : 0 < den / num.gcd den := Nat.div_pos (Nat.gcd_le_right _ hd) common
  have wholeNum := Nat.div_mul_cancel (Nat.gcd_dvd_left num den)
  have wholeDen := Nat.div_mul_cancel (Nat.gcd_dvd_right num den)
  generalize num / num.gcd den = a at *
  generalize den / num.gcd den = b at *
  generalize num.gcd den = g at *
  have ratio : (a : ℚ) = v * b := by
    have scale : (g : ℚ) ≠ 0 := by positivity
    have wholeNum : (a : ℚ) * g = num := by exact_mod_cast wholeNum
    have wholeDen : (b : ℚ) * g = den := by exact_mod_cast wholeDen
    apply mul_right_cancel₀ scale
    rw [wholeNum, value, ← wholeDen, mul_assoc]
  have positive : (0 : ℚ) < (b : ℚ) ^ k := by positivity
  refine ⟨numPos, denPos, ?_⟩
  rw [← Nat.cast_le (α := ℚ), Nat.cast_mul, Nat.cast_pow, Nat.cast_pow, ratio, mul_pow]
  exact mul_le_mul_iff_left₀ positive

theorem leading_bit_of_one_le (one : (1 : ℚ) ≤ m * 2 ^ e) : 0 ≤ m.log2 + e := by
  have below : (m : ℚ) < 2 ^ (m.log2 + 1) := by exact_mod_cast Nat.lt_log2_self (n := m)
  have less : (2 : ℚ) ^ (0 : Int) < 2 ^ ((m.log2 : Int) + 1 + e) := by
    calc (2 : ℚ) ^ (0 : Int) = 1 := zpow_zero _
      _ ≤ m * 2 ^ e := one
      _ < 2 ^ (m.log2 + 1) * 2 ^ e := by gcongr
      _ = 2 ^ ((m.log2 : Int) + 1 + e) := by
        rw [zpow_add₀ two_ne_zero _ e, ← zpow_natCast]
        rfl
  have exponents := (zpow_lt_zpow_iff_right₀ (one_lt_two : (1 : ℚ) < 2)).1 less
  omega

theorem overflowBound_le_two_pow_iff {k : Nat} : overflowBound ≤ 2 ^ k ↔ 1024 ≤ k := by
  have shifted (s : Nat) : (2 ^ 54 - 1) * 2 ^ s ≤ 2 ^ k ↔ 54 + s ≤ k := by
    constructor
    · intro reached
      by_contra small
      have below : 2 ^ k ≤ 2 ^ 53 * 2 ^ s := by
        rw [← pow_add]
        exact Nat.pow_le_pow_right Nat.two_pos (by omega)
      have above : 2 ^ 53 * 2 ^ s < (2 ^ 54 - 1) * 2 ^ s := by
        gcongr
        decide
      exact absurd (reached.trans below) (not_le.2 above)
    · intro large
      calc (2 ^ 54 - 1) * 2 ^ s ≤ 2 ^ 54 * 2 ^ s := Nat.mul_le_mul_right _ (Nat.sub_le _ _)
        _ = 2 ^ (54 + s) := (pow_add 2 54 s).symm
        _ ≤ 2 ^ k := Nat.pow_le_pow_right Nat.two_pos large
  exact shifted 970

/-- Where the leading bit alone makes the power too large, it is. -/
theorem overflow_of_leading_bit (pos : 0 < m) (fits : n < overflowBound) (large : 1024 ≤ (m.log2 + e) * n) :
    (overflowBound : ℚ) ≤ (m * 2 ^ e) ^ rounded n := by
  obtain ⟨l, whole⟩ : ∃ l : Nat, (m.log2 + e : Int) = l := by
    refine Int.eq_ofNat_of_zero_le ?_
    by_contra negative
    have none := Int.mul_nonpos_of_nonpos_of_nonneg (not_le.1 negative).le (Int.natCast_nonneg n)
    omega
  rw [whole] at large
  have large : 1024 ≤ l * n := by exact_mod_cast large
  have positive : 0 < l := Nat.pos_of_mul_pos_right (Nat.lt_of_lt_of_le (by decide) large)
  have enough : 1024 ≤ l * rounded n := by
    rcases Nat.lt_or_ge n (2 ^ 53) with short | long
    · rwa [rounded_of_lt short]
    · have least := two_pow_le_rounded (by decide) long fits
      exact (show 1024 ≤ rounded n by omega).trans (Nat.le_mul_of_pos_left _ positive)
  have leading : (2 : ℚ) ^ l ≤ m * 2 ^ e := by
    calc (2 : ℚ) ^ l = 2 ^ m.log2 * 2 ^ e := by
          rw [← zpow_natCast, ← whole, zpow_add₀ two_ne_zero, zpow_natCast]
      _ ≤ m * 2 ^ e := by
        gcongr
        exact_mod_cast Nat.log2_self_le pos.ne'
  calc (overflowBound : ℚ) ≤ 2 ^ (l * rounded n) := by exact_mod_cast overflowBound_le_two_pow_iff.2 enough
    _ = (2 ^ l) ^ rounded n := pow_mul 2 l (rounded n)
    _ ≤ (m * 2 ^ e) ^ rounded n := by gcongr

/-- Raising a number from one up is an error exactly if the power is too large. -/
theorem power_finite (hx : ofFloat x = .finite false m e) (one : (1 : ℚ) ≤ m * 2 ^ e) (pos : 0 < n)
    (fits : n < overflowBound) :
    ((overflowBound : ℚ) ≤ (m * 2 ^ e) ^ rounded n ∧ power x n = .error .tooLarge) ∨
      (¬ (overflowBound : ℚ) ≤ (m * 2 ^ e) ^ rounded n ∧ ∃ y, power x n = .ok y) := by
  have mantissa : 0 < m := by
    rcases Nat.eq_zero_or_pos m with rfl | pos
    · rw [Nat.cast_zero, zero_mul] at one
      exact absurd one (by norm_num)
    · exact pos
  have whole : ¬ (n : Int) = 0 := by omega
  have positive : (n : Int) > 0 := by omega
  have some : ¬ (ofInt? (n : Int)).isNone = true := by
    rw [Option.isNone_iff_eq_none, ofInt?_eq_none_iff]
    exact not_le.2 fits
  unfold power
  rw [if_neg whole, if_neg some, hx]
  dsimp only
  rw [if_neg mantissa.ne']
  split
  case isTrue large => exact .inl ⟨overflow_of_leading_bit mantissa fits (le_min_iff.1 large).2, rfl⟩
  split
  case isTrue small =>
    -- A number from one up has no small powers.
    have leading : 0 ≤ Int.ofNat m.log2 + e := leading_bit_of_one_le one
    have least : 0 ≤ (Int.ofNat m.log2 + e) * n := mul_nonneg leading (Int.natCast_nonneg n)
    have most := (max_lt_iff.1 small).2
    omega
  rw [Int.natAbs_natCast]
  dsimp only
  obtain ⟨upPos, downPos⟩ := powerOfTwo_pos e
  have value : ((m * (powerOfTwo e).1 : Nat) : ℚ) = m * 2 ^ e * (powerOfTwo e).2 := by
    rw [Nat.cast_mul, powerOfTwo_eq]
    ring
  obtain ⟨numPos, denPos, lowest⟩ := overflow_lowest_iff (Nat.mul_pos mantissa upPos) downPos value (rounded n)
  generalize m * (powerOfTwo e).1 / (m * (powerOfTwo e).1).gcd (powerOfTwo e).2 = num at *
  generalize (powerOfTwo e).2 / (m * (powerOfTwo e).1).gcd (powerOfTwo e).2 = den at *
  rw [← lowest]
  split
  case isTrue small =>
    -- A small exponent is a float, and its power is written out.
    have small : n ≤ 10000 := small
    have infinite : 2047 * 2 ^ 52 ≤ nearestBits (num ^ n) (den ^ n) ↔ overflowBound * den ^ n ≤ num ^ n :=
      infinite_nearestBits_iff (pow_ne_zero n denPos.ne')
    rw [rounded_of_lt (by omega), ← infinite]
    split
    case isTrue finite => exact .inr ⟨not_le.2 finite, _, rfl⟩
    case isFalse large => exact .inl ⟨not_lt.1 large, rfl⟩
  case isFalse =>
    rw [← isPowerInfinite_iff numPos denPos]
    split
    case isTrue infinite => exact .inl ⟨infinite, rfl⟩
    case isFalse finite => exact .inr ⟨finite, _, rfl⟩

theorem power_cases (one : 1.0 ≤ x) (finite : x.isFinite = true) (n : Nat) :
    (PowerOverflows x n ∧ power x n = .error .tooLarge) ∨ (¬ PowerOverflows x n ∧ ∃ y, power x n = .ok y) := by
  obtain ⟨m, e, parts, least⟩ := exists_finite one finite
  have overflows : PowerOverflows x n ↔ overflowBound ≤ n ∨ (overflowBound : ℚ) ≤ (m * 2 ^ e) ^ rounded n := by
    unfold PowerOverflows
    rw [parts]
    rfl
  rw [overflows, not_or]
  rcases Nat.eq_zero_or_pos n with rfl | pos
  · have zero : rounded 0 = 0 := rounded_of_lt (by decide)
    have small : 1 < overflowBound := lt_overflowBound (by decide)
    rw [zero, pow_zero]
    exact .inr ⟨⟨by omega, by exact_mod_cast not_le.2 small⟩, 1.0, rfl⟩
  · rcases Nat.lt_or_ge n overflowBound with fits | long
    · rcases power_finite parts least pos fits with ⟨large, failed⟩ | ⟨small, held⟩
      · exact .inl ⟨.inr large, failed⟩
      · exact .inr ⟨⟨not_le.2 fits, small⟩, held⟩
    · have none : (ofInt? (n : Int)).isNone = true := by
        rw [Option.isNone_iff_eq_none, ofInt?_eq_none_iff]
        exact long
      refine .inl ⟨.inl long, ?_⟩
      unfold power
      rw [if_neg (by omega), if_pos none]

/-- Doubling overflows with the first exponent of eleven bits. -/
theorem powerOverflows_two_iff (n : Nat) : PowerOverflows 2.0 n ↔ 1024 ≤ n := by
  have two : (ofFloat 2.0).toRat = 2 := by
    have parts : ofFloat 2.0 = .finite false (2 ^ 52) (-51) := by decide +kernel
    rw [parts]
    norm_num [toRat]
  have power : (overflowBound : ℚ) ≤ 2 ^ rounded n ↔ 1024 ≤ rounded n := by
    rw [← overflowBound_le_two_pow_iff]
    exact_mod_cast Iff.rfl
  unfold PowerOverflows
  rw [two, power]
  rcases Nat.lt_or_ge n (2 ^ 53) with short | long
  · have fits := lt_overflowBound short
    rw [rounded_of_lt short]
    omega
  · refine iff_of_true ?_ (by omega)
    rcases Nat.lt_or_ge n overflowBound with fits | large
    · have least := two_pow_le_rounded (by decide) long fits
      exact .inr (by omega)
    · exact .inl large

end SealedFields.Number
