import SealedFields.Noise
import SealedFields.Proofs.Ciphertext.Serialized
import SealedFields.Proofs.Engine.Neutral
import SealedFields.Proofs.Number.Sums

/-!
# Reported additions

The report on a ciphertext counts steps of additive growth: it divides what is left of the noise budget by the growth
factor of an addition. The engine also adds the noise of the other operand, and that of a fresh one is almost three times
the factor. So of additions of fresh ciphertexts about a quarter as many fit.
-/

namespace SealedFields

open Number (AtLeast Binary64 Near)

variable {x : Float} {m j : Nat} {e : Int} {v ε : ℚ}

/-! ## 1. Constants -/

theorem near_baseNoise : Near baseNoise (16 / 5) (1 / 10 ^ 9) := by
  refine ⟨7205759403792794, -51, by decide, by norm_num, ?_⟩
  rw [abs_le]
  constructor <;> norm_num

theorem ofFloat_additive : Binary64.ofFloat GrowthFactors.standard.add = .finite false 4953959590107546 (-52) := by
  decide

theorem near_additive : Near GrowthFactors.standard.add (11 / 10) (1 / 10 ^ 9) := by
  refine ⟨_, _, ofFloat_additive, by norm_num, ?_⟩
  rw [abs_le]
  constructor <;> norm_num

theorem ofFloat_maxNoise : Binary64.ofFloat maxNoise = .finite false 7036874417766400 (-46) := by decide

theorem value_maxNoise : ((7036874417766400 : Nat) : ℚ) * 2 ^ (-46 : Int) = 100 := by norm_num

theorem maxNoise_lt_iff (hx : Binary64.ofFloat x = .finite false m e) : maxNoise < x ↔ 100 < (m : ℚ) * 2 ^ e := by
  rw [Number.lt_iff_value ofFloat_maxNoise hx, value_maxNoise]

theorem sub_le_of_near (h : Near x v ε) (within : ¬ maxNoise < x) : v - ε ≤ 100 := by
  obtain ⟨m, e, parts, -, close⟩ := h
  rw [maxNoise_lt_iff parts, not_lt] at within
  rw [abs_le] at close
  linarith

theorem lt_add_of_near (h : Near x v ε) (beyond : maxNoise < x) : 100 < v + ε := by
  obtain ⟨m, e, parts, -, close⟩ := h
  rw [maxNoise_lt_iff parts] at beyond
  rw [abs_le] at close
  linarith

namespace Noise

/-! ## 2. Levels -/

/-- The noise of a sum with a fresh ciphertext. -/
def afterFresh (x : Float) : Float := x + baseNoise + GrowthFactors.standard.add

/-- The noise after so many sums with fresh ciphertexts. -/
def level (x : Float) (count : Nat) : Float := afterFresh^[count] x

theorem level_succ (x : Float) (j : Nat) : level x (j + 1) = afterFresh (level x j) :=
  Function.iterate_succ_apply' _ _ _

theorem level_afterFresh (x : Float) (j : Nat) : level (afterFresh x) j = level x (j + 1) :=
  (Function.iterate_succ_apply _ _ _).symm

theorem near_afterFresh (h : Near x v ε) (most : v + ε ≤ 101) : Near (afterFresh x) (v + 43 / 10) (ε + 1 / 1000) := by
  have sum := (h.add near_baseNoise (by linarith)).add near_additive (by norm_num; linarith)
  have value : v + 16 / 5 + 11 / 10 = v + 43 / 10 := by ring
  rw [value] at sum
  apply sum.mono
  norm_num
  linarith

/-- As long as the budget lasts, every sum adds 4.3, to within a thousandth. -/
theorem near_level (h : Near x v 0) (one : 1 ≤ v) (within : ∀ i < j, ¬ maxNoise < level x i) :
    Near (level x j) (v + 43 / 10 * j) (j / 1000) := by
  induction j with
  | zero =>
    rw [Nat.cast_zero, mul_zero, add_zero, zero_div]
    exact h
  | succ j ih =>
    have before := ih fun i less => within i (by omega)
    have low := sub_le_of_near before (within j (Nat.lt_succ_self j))
    have step := near_afterFresh before (by linarith)
    have value : v + 43 / 10 * j + 43 / 10 = v + 43 / 10 * (j + 1 : Nat) := by
      push_cast
      ring
    have error : (j : ℚ) / 1000 + 1 / 1000 = (j + 1 : Nat) / 1000 := by
      push_cast
      ring
    rw [value, error, ← level_succ] at step
    exact step

/-- The budget lasts for so many sums, and no more. -/
def Lasts (x : Float) (n : Nat) : Prop := (∀ i ≤ n, ¬ maxNoise < level x i) ∧ maxNoise < level x (n + 1)

theorem exists_lasts (h : Near x v 0) (one : 1 ≤ v) (within : ¬ maxNoise < x) : ∃ n, Lasts x n := by
  classical
  have ends : ∃ j, maxNoise < level x j := by
    by_contra never
    rw [not_exists] at never
    have after := near_level (j := 30) h one fun i _ => never i
    have low := sub_le_of_near after (never 30)
    norm_num at low
    linarith
  have start : Nat.find ends ≠ 0 := fun zero => by
    have beyond := Nat.find_spec ends
    rw [zero] at beyond
    exact within beyond
  refine ⟨Nat.find ends - 1, fun i le => Nat.find_min ends (by omega), ?_⟩
  rw [Nat.sub_add_cancel (Nat.one_le_iff_ne_zero.2 start)]
  exact Nat.find_spec ends

/-- So many sums take up the budget, but for less than one more. -/
theorem Lasts.bounds {n : Nat} (lasts : Lasts x n) (h : Near x v 0) (one : 1 ≤ v) :
    43 * (n : ℚ) ≤ 10 * (100 - v) + 1 / 2 ∧ 10 * (100 - v) < 43 * (n + 1) + (n + 1) / 100 := by
  have low := sub_le_of_near (near_level h one fun i less => lasts.1 i less.le) (lasts.1 n le_rfl)
  have high := lt_add_of_near (near_level h one fun i less => lasts.1 i (Nat.le_of_lt_succ less)) lasts.2
  push_cast at high
  constructor <;> linarith

/-! ## 3. The report -/

/-- What is left of the budget is computed almost exactly. -/
theorem exists_left (hx : Binary64.ofFloat x = .finite false m e) (one : 1 ≤ (m : ℚ) * 2 ^ e)
    (less : (m : ℚ) * 2 ^ e < 100) : ∃ md ed, Binary64.ofFloat (maxNoise - x) = .finite false md ed ∧
      2 ^ (-52 : Int) ≤ (md : ℚ) * 2 ^ ed ∧ (md : ℚ) * 2 ^ ed ≤ 100 ∧
        |(md : ℚ) * 2 ^ ed - (100 - m * 2 ^ e)| ≤ 1 / 10 ^ 9 := by
  have least := Number.exponent_gt_of_one_le hx one
  obtain ⟨-, -, canonical⟩ := Number.toBits_of_finite hx
  obtain ⟨-, -, canonical'⟩ := Number.toBits_of_finite ofFloat_maxNoise
  have positive : 0 < m := Number.pos_of_value_pos (one_pos.trans_le one)
  have huge : (1000 : ℚ) < Binary64.overflowBound := by exact_mod_cast Binary64.lt_overflowBound (by decide)
  rw [← value_maxNoise] at less
  -- The noise is at least one of its units below the limit.
  have unit := Binary64.succ_le_of_lt canonical canonical' less
  have small : (2 : ℚ) ^ (-52 : Int) ≤ 2 ^ e := zpow_le_zpow_right₀ one_le_two (by omega)
  obtain ⟨md, ed, left, nearest⟩ := Number.exists_difference ofFloat_maxNoise hx positive (by decide) least.le less
    (by rw [value_maxNoise]; linarith)
  rw [value_maxNoise] at unit nearest
  have apart := nearest.power_le (t := -52) (by decide) (by decide) (by linarith)
  have tiny : (2 : ℚ) ^ (-1022 : Int) ≤ 2 ^ (-52 : Int) := zpow_le_zpow_right₀ one_le_two (by decide)
  obtain ⟨low, high⟩ := nearest.relative (by linarith)
  refine ⟨md, ed, left, apart, by linarith, ?_⟩
  rw [abs_le]
  constructor <;> linarith

/-- The quotient by the growth factor of an addition has a whole part, which is near the exact quotient. -/
theorem exists_whole_quotient (hx : Binary64.ofFloat x = .finite false m e) (least : 2 ^ (-52 : Int) ≤ (m : ℚ) * 2 ^ e)
    (most : (m : ℚ) * 2 ^ e ≤ 100) : ∃ mq eq, ∃ k : Nat,
      Binary64.ofFloat (x / GrowthFactors.standard.add) = .finite false mq eq ∧
        (Binary64.finite false mq eq).floor? = some (k : Int) ∧
          11 * (k : ℚ) ≤ 10 * (m * 2 ^ e) + 1 / 10 ^ 9 ∧ 10 * ((m : ℚ) * 2 ^ e) < 11 * (k + 1) + 1 / 10 ^ 9 := by
  obtain ⟨-, -, canonical⟩ := Number.toBits_of_finite hx
  have tiny : (2 : ℚ) ^ (-1021 : Int) ≤ 2 ^ (-52 : Int) := zpow_le_zpow_right₀ one_le_two (by decide)
  obtain ⟨full, above⟩ := canonical.full_of_le (tiny.trans least)
  have huge : (1000 : ℚ) < Binary64.overflowBound := by exact_mod_cast Binary64.lt_overflowBound (by decide)
  obtain ⟨v, value⟩ : ∃ v, v = (m : ℚ) * 2 ^ e / ((4953959590107546 : Nat) * 2 ^ (-52 : Int)) := ⟨_, rfl⟩
  have ratio : 4953959590107546 * v = 2 ^ 52 * ((m : ℚ) * 2 ^ e) := by
    rw [value]
    norm_num
    ring
  have some : 2 ^ (-53 : Int) ≤ v := by
    norm_num at least ⊢
    linarith
  have tiny : (2 : ℚ) ^ (-1022 : Int) ≤ 2 ^ (-53 : Int) := zpow_le_zpow_right₀ one_le_two (by decide)
  obtain ⟨mq, eq, quotient, nearest⟩ := Number.exists_quotient hx ofFloat_additive full (by decide) (by omega)
    (by rw [← value]; norm_num at some ⊢; linarith) (by rw [← value]; linarith)
  rw [← value] at nearest
  obtain ⟨low, high⟩ := nearest.relative (tiny.trans some)
  obtain ⟨k, floor, reached, below⟩ := Binary64.floor?_finite mq eq
  exact ⟨mq, eq, k, quotient, floor, by linarith, by linarith⟩

/-- What is reported is the whole part of what is left, divided by 1.1. -/
theorem exists_remaining (hx : Binary64.ofFloat x = .finite false m e) (one : 1 ≤ (m : ℚ) * 2 ^ e)
    (within : ¬ maxNoise < x) : ∃ k : Nat, remainingAdditions x .standard = .ok (k : Int) ∧
      11 * (k : ℚ) ≤ 10 * (100 - m * 2 ^ e) + 1 / 100 ∧ 10 * (100 - m * 2 ^ e) < 11 * ((k : ℚ) + 1) + 1 / 100 := by
  have some : ¬ (GrowthFactors.standard.add == 0.0) = true := by decide
  have most := mt (maxNoise_lt_iff hx).2 within
  rw [not_lt] at most
  rcases most.lt_or_eq with less | same
  · obtain ⟨md, ed, left, apart, most, close⟩ := exists_left hx one less
    obtain ⟨mq, eq, k, quotient, floor, low, high⟩ := exists_whole_quotient left apart most
    rw [abs_le] at close
    refine ⟨k, ?_, by linarith, by linarith⟩
    unfold remainingAdditions
    rw [if_neg within, if_neg some, quotient]
    show Except.ok ((Binary64.finite false mq eq).floor?.getD 0) = _
    rw [floor]
    rfl
  · -- Nothing is left.
    obtain rfl : x = maxNoise := Number.eq_of_value hx ofFloat_maxNoise (same.trans value_maxNoise.symm)
    have none : remainingAdditions maxNoise .standard = .ok 0 := by rfl
    rw [same]
    exact ⟨0, none, by norm_num, by norm_num⟩

end Noise

/-! ## 4. Additions -/

namespace Engine

open Ciphertext (freshSize)
open Noise (Lasts afterFresh level level_afterFresh)

variable {s : Scheme} {engine : Engine Float} {b c r : Ciphertext Float} {bs : List (Ciphertext Float)}
  {amount : Int} {key : Option BootstrappingKey}

/-- Adds ciphertexts one after the other, each in an evaluation of its own that refreshes nothing. -/
def addEach (engine : Engine Float) (c : Ciphertext Float) (bs : List (Ciphertext Float)) :
    Computed Float (Ciphertext Float) :=
  bs.foldlM (fun c b => Evaluation.ciphertext <$> engine.evaluate .add [c, b] 1 false none) c

/-- What a sum with a fresh ciphertext needs, and leaves. -/
structure Adds (c : Ciphertext Float) : Prop where
  noisy : c.Noisy
  size : freshSize ≤ c.size

theorem apply_add_two (c b : Ciphertext Float) : engine.apply .add [c, b] amount key = engine.add c b :=
  bind_pure _

theorem Adds.exists_add (standard : engine.growth = .standard) (adds : Adds c) (fresh : b.noise = baseNoise) :
    ∃ r, engine.add c b = .ok r ∧ Adds r ∧ r.noise = afterFresh c.noise := by
  have grown : AtLeast 7 (c.noise + b.noise + engine.growth.add) := by
    rw [fresh, standard]
    exact (adds.noisy.add baseNoise_atLeast (by decide) (by decide) (by decide)).add growing_standard.add (by decide)
      (by decide) (by decide)
  have enough : NoiseArithmetic.less (c.noise + b.noise + engine.growth.add) NoiseArithmetic.least = false :=
    decide_eq_false ((grown.mono (by decide)).not_lt (by decide) leastNoise_lacks)
  refine ⟨_, handOut_of_valid ⟨enough, adds.size⟩, ⟨grown.mono (by decide), adds.size⟩, ?_⟩
  show c.noise + b.noise + engine.growth.add = _
  rw [fresh, standard]
  rfl

theorem evaluate_of_not_exhausted {op : Operation} {inputs : List (Ciphertext Float)}
    (applied : engine.apply op inputs amount key = .ok r) (within : r.isExhausted = false) :
    engine.evaluate op inputs amount false key = .ok ⟨r, op, false⟩ := by
  unfold evaluate
  rw [applied]
  show (if (!r.isExhausted) = true then _ else _) = _
  rw [within]
  rfl

/-- As long as the budget lasts, ciphertexts are added, with their noise. -/
theorem Adds.exists_addEach (standard : engine.growth = .standard) (adds : Adds c) (fresh : ∀ b ∈ bs, b.noise = baseNoise)
    (within : ∀ i ≤ bs.length, ¬ maxNoise < level c.noise i) :
    ∃ r, engine.addEach c bs = .ok r ∧ r.noise = level c.noise bs.length := by
  induction bs generalizing c with
  | nil => exact ⟨c, rfl, rfl⟩
  | cons b bs ih =>
    rw [List.forall_mem_cons] at fresh
    obtain ⟨d, added, adds', noise⟩ := adds.exists_add standard fresh.1
    have first : d.isExhausted = false := by
      refine decide_eq_false ?_
      rw [noise]
      exact within 1 (Nat.succ_le_of_lt (Nat.succ_pos _))
    obtain ⟨r, rest, left⟩ := ih adds' fresh.2 fun i le => by
      rw [noise, level_afterFresh]
      exact within (i + 1) (Nat.succ_le_succ le)
    rw [noise, level_afterFresh] at left
    refine ⟨r, ?_, left⟩
    unfold addEach
    rw [List.foldlM_cons, evaluate_of_not_exhausted ((apply_add_two c b).trans added) first]
    exact rest

/-- The first addition after that is refused. -/
theorem Adds.addEach_of_lasts (standard : engine.growth = .standard) (adds : Adds c)
    (fresh : ∀ b ∈ bs, b.noise = baseNoise) {n : Nat} (lasts : Lasts c.noise n) (more : n < bs.length) :
    engine.addEach c bs = .error (.noiseOverflow (level c.noise (n + 1)) .add) := by
  induction bs generalizing c n with
  | nil => cases more
  | cons b bs ih =>
    rw [List.forall_mem_cons] at fresh
    obtain ⟨d, added, adds', noise⟩ := adds.exists_add standard fresh.1
    have applied : engine.apply .add [c, b] 1 none = .ok d := (apply_add_two c b).trans added
    unfold addEach
    rw [List.foldlM_cons]
    cases n with
    | zero =>
      have exhausted : d.isExhausted = true := by
        refine decide_eq_true ?_
        rw [noise]
        exact lasts.2
      rw [evaluate_of_exhausted applied exhausted, noise]
      rfl
    | succ n =>
      have first : d.isExhausted = false := by
        refine decide_eq_false ?_
        rw [noise]
        exact lasts.1 1 (Nat.succ_le_of_lt (Nat.succ_pos _))
      have lasts' : Lasts d.noise n := by
        rw [noise]
        refine ⟨fun i le => ?_, ?_⟩
        · rw [level_afterFresh]
          exact lasts.1 (i + 1) (Nat.succ_le_succ le)
        · rw [level_afterFresh]
          exact lasts.2
      rw [evaluate_of_not_exhausted applied first, ← level_afterFresh, ← noise]
      exact ih adds' fresh.2 lasts' (Nat.lt_of_succ_lt_succ more)

end Engine

/-! ## 5. What is reported and what fits -/

/-- A ciphertext that was just encrypted under registered parameters. -/
def Codec.Fresh (s : Scheme) (b : Ciphertext Float) : Prop :=
  ∃ plaintext keys, encrypt (.registered s) plaintext keys = .ok b

theorem Codec.Fresh.noise_eq {s : Scheme} {b : Ciphertext Float} (fresh : Fresh s b) : b.noise = baseNoise := by
  obtain ⟨plaintext, keys, encrypted⟩ := fresh
  obtain ⟨⟨-, noise⟩, -⟩ := encode_eq_ok encrypted
  exact noise.trans (noiseDeviation_registered s)

/-- Valid noise that is within the budget is NaN, or a number from three up. -/
theorem Ciphertext.Valid.noise_cases {c : Ciphertext Float} (valid : c.Valid) (within : c.isExhausted = false) :
    c.noise = Float.ofBits 0x7FF8000000000000 ∨
      ∃ m e, Binary64.ofFloat c.noise = .finite false m e ∧ 3 ≤ (m : ℚ) * 2 ^ e ∧ c.Noisy := by
  by_cases number : c.noise.isNaN = false
  · right
    have noisy : c.Noisy := leastNoise_atLeast.of_le (by decide) (Wire.least_le_noise valid number)
    rcases noisy.cases (by decide) with infinite | ⟨m, e, pos, parts, -, -, scaled⟩
    · have huge : AtLeast 108 c.noise := by
        unfold AtLeast
        rw [infinite]
        trivial
      exact absurd (huge.lt (by decide) isNaN_maxNoise maxNoise_lacks) (of_decide_eq_false within)
    · refine ⟨m, e, ?_, by exact_mod_cast Number.atMostScaled_iff.1 scaled, noisy⟩
      rw [Number.ofFloat_eq, parts]
      rfl
  · left
    have unpacked : c.noise.toModel.unpack.isNaN = true := Bool.eq_true_of_not_eq_false number
    apply Number.eq_nan
    rw [Number.ofFloat_eq]
    match c.noise.toModel.unpack, unpacked with
    | .notANumber, _ => rfl

theorem Noise.report_of_remaining {c : Ciphertext Float} {growth : GrowthFactors Float} {k : Int}
    (told : remainingAdditions c.noise growth = .ok k) :
    report c growth = .ok ⟨c.noise, maxNoise, k, c.isExhausted⟩ := by
  unfold report
  rw [told]
  rfl

/-- On a ciphertext within the budget the report tells the number `k` of steps of additive growth that are left, up to
rounding, unless the noise is NaN. Additions of fresh ciphertexts account for the noise of both operands and for the
growth. Of these the engine takes exactly `n` one after the other, and refuses the next one: at least a quarter of `k`
without its fraction, and at most 11/43 of `k + 1`. So where any step is left, fewer of them fit. -/
theorem additions_reported (s : Scheme) {c : Ciphertext Float} (valid : c.Valid) (within : c.isExhausted = false) :
    (c.noise.isNaN = true ∧ Noise.report c (Parameters.registered s).engine.growth = .error .badValue) ∨
      ∃ (r : Noise.Report) (v : ℚ) (k n : Nat), Noise.report c (Parameters.registered s).engine.growth = .ok r ∧
        r.remaining = k ∧ Near c.noise v 0 ∧ 11 * (k : ℚ) ≤ 10 * (100 - v) + 1 / 100 ∧
        10 * (100 - v) < 11 * ((k : ℚ) + 1) + 1 / 100 ∧ k / 4 ≤ n ∧ 43 * n ≤ 11 * (k + 1) ∧ (k ≤ n ↔ k = 0) ∧
          ∀ bs, (∀ b ∈ bs, Codec.Fresh s b) →
            if bs.length ≤ n then ∃ d, (Parameters.registered s).engine.addEach c bs = .ok d ∧
              d.noise = (fun x => x + baseNoise + (Parameters.registered s).engine.growth.add)^[bs.length] c.noise
            else ∃ level, maxNoise < level ∧
              (Parameters.registered s).engine.addEach c bs = .error (.noiseOverflow level .add) := by
  have standard := Parameters.growth_registered s
  rw [standard]
  rcases valid.noise_cases within with nan | ⟨m, e, parts, three, noisy⟩
  · left
    refine ⟨by rw [nan]; decide, ?_⟩
    unfold Noise.report
    rw [nan]
    rfl
  · right
    have one : 1 ≤ (m : ℚ) * 2 ^ e := by linarith
    have near : Near c.noise (m * 2 ^ e) 0 := ⟨m, e, parts, one, by simp⟩
    have fresh : ¬ maxNoise < c.noise := of_decide_eq_false within
    obtain ⟨k, told, low, high⟩ := Noise.exists_remaining parts one fresh
    obtain ⟨n, lasts⟩ := Noise.exists_lasts near one fresh
    obtain ⟨taken, refused⟩ := lasts.bounds near one
    have most : 43 * (n : ℚ) < 11 * (k + 1) + 1 := by linarith
    have most : 43 * n < 11 * (k + 1) + 1 := by exact_mod_cast most
    refine ⟨_, _, k, n, Noise.report_of_remaining told, rfl, near, low, high, ?_, by omega, by omega, fun bs all => ?_⟩
    · by_contra few
      have few : 4 * (n + 1) ≤ k := by omega
      have few : 4 * ((n : ℚ) + 1) ≤ k := by exact_mod_cast few
      have some : (0 : ℚ) ≤ n := Nat.cast_nonneg n
      linarith
    · have adds : Engine.Adds c := ⟨noisy, valid.2⟩
      have noise : ∀ b ∈ bs, b.noise = baseNoise := fun b mem => (all b mem).noise_eq
      split
      case isTrue few =>
        exact adds.exists_addEach standard noise fun i le => lasts.1 i (le.trans few)
      case isFalse more =>
        exact ⟨_, lasts.2, adds.addEach_of_lasts standard noise lasts (not_le.1 more)⟩

/-- Fifty of noise, where forty-five steps are reported and eleven fresh ciphertexts fit. -/
theorem additions_reported_half : ∃ (r : Noise.Report) (b d : Ciphertext Float),
    Noise.report ⟨[], 50.0, 0, 2, false, false⟩ (Parameters.registered .bfv).engine.growth = .ok r ∧ r.remaining = 45 ∧
      Codec.Fresh .bfv b ∧
        (Parameters.registered .bfv).engine.addEach ⟨[], 50.0, 0, 2, false, false⟩ (List.replicate 11 b) = .ok d ∧
        ∃ level, (Parameters.registered .bfv).engine.addEach ⟨[], 50.0, 0, 2, false, false⟩ (List.replicate 12 b)
          = .error (.noiseOverflow level .add) := by
  obtain ⟨b, encrypted, -⟩ := Codec.exists_encrypt .bfv [1, 2, 3] ⟨[7], [8], [9], .bfv⟩
  have fresh : Codec.Fresh .bfv b := ⟨_, _, encrypted⟩
  have all (count : Nat) : ∀ b' ∈ List.replicate count b, Codec.Fresh .bfv b' := fun b' mem =>
    List.eq_of_mem_replicate mem ▸ fresh
  have counted : Noise.remainingAdditions 50.0 .standard = .ok 45 := by rfl
  rcases additions_reported .bfv (c := ⟨[], 50.0, 0, 2, false, false⟩) (by decide) (by decide +kernel) with
    ⟨nan, -⟩ | ⟨r, v, k, n, told, remaining, -, -, -, low, high, -, adds⟩
  · exact absurd nan (by decide)
  · have report := Noise.report_of_remaining (c := ⟨[], 50.0, 0, 2, false, false⟩) counted
    obtain rfl := Except.ok.inj (told.symm.trans report)
    obtain rfl : k = 45 := by
      have same : (45 : Int) = k := remaining
      omega
    obtain rfl : n = 11 := by omega
    have eleven := adds _ (all 11)
    have twelve := adds _ (all 12)
    rw [List.length_replicate] at eleven twelve
    rw [if_pos le_rfl] at eleven
    rw [if_neg (by decide)] at twelve
    obtain ⟨d, added, -⟩ := eleven
    obtain ⟨level, -, refused⟩ := twelve
    exact ⟨_, b, d, told, rfl, fresh, added, level, refused⟩

/-- One step is reported, and a single fresh ciphertext is refused. -/
theorem reported_addition_refused : ∃ (r : Noise.Report) (b : Ciphertext Float) (level : Float),
    (⟨[], 98.0, 0, 2, false, false⟩ : Ciphertext Float).Valid ∧
      (⟨[], 98.0, 0, 2, false, false⟩ : Ciphertext Float).isExhausted = false ∧
      Noise.report ⟨[], 98.0, 0, 2, false, false⟩ (Parameters.registered .bfv).engine.growth = .ok r ∧ r.remaining = 1 ∧
      Codec.encrypt (.registered .bfv) [1, 2, 3] ⟨[7], [8], [9], .bfv⟩ = .ok b ∧
      (Parameters.registered .bfv).engine.evaluate .add [⟨[], 98.0, 0, 2, false, false⟩, b] 1 false none
        = .error (.noiseOverflow level .add) := by
  obtain ⟨b, encrypted, -⟩ := Codec.exists_encrypt .bfv [1, 2, 3] ⟨[7], [8], [9], .bfv⟩
  have fresh : Codec.Fresh .bfv b := ⟨_, _, encrypted⟩
  have counted : Noise.remainingAdditions 98.0 .standard = .ok 1 := by rfl
  have adds : Engine.Adds ⟨[], 98.0, 0, 2, false, false⟩ := ⟨by unfold Ciphertext.Noisy; decide, by decide⟩
  obtain ⟨r, added, -, noise⟩ := adds.exists_add (Parameters.growth_registered .bfv) fresh.noise_eq
  have exhausted : r.isExhausted = true := by
    refine decide_eq_true ?_
    rw [noise]
    decide
  exact ⟨_, b, r.noise, by decide, by decide +kernel, Noise.report_of_remaining counted, rfl, encrypted,
    Engine.evaluate_of_exhausted ((Engine.apply_add_two _ b).trans added) exhausted⟩

end SealedFields
