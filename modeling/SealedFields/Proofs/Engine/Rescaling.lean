import SealedFields.Proofs.Ciphertext.Verified
import SealedFields.Proofs.Engine.Neutral
import SealedFields.Proofs.Number.Rescaling
import SealedFields.Proofs.Number.Sums

/-!
# Switching moduli

Switching moduli scales payload and noise by the quotient of the moduli. Bytes are scaled as floats are, whose quotient
is rounded: exactly, but for those that it falls short of.
-/

namespace SealedFields.Engine

open Number (Binary64)
open Number.Binary64 (IsNearest)
open Number.Rescaling (Scaled FallsShort ratio_bounds)
open NoiseArithmetic (least scaleByte ratio?)

variable {m n source target : Nat} {e : Int} {x y : Float}

/-! ## 1. Ratios -/

theorem le_overflowBound : 2 ^ 62 ≤ Binary64.overflowBound := by
  have small : 62 ≤ 970 := by decide
  unfold Binary64.overflowBound
  generalize 970 = k at *
  calc 2 ^ 62 ≤ 2 ^ k := Nat.pow_le_pow_right Nat.two_pos small
    _ ≤ (2 ^ 54 - 1) * 2 ^ k := Nat.le_mul_of_pos_left _ (by decide)

/-- The quotient of two moduli is rounded to a float. -/
theorem exists_ratio (hs : 0 < source) (fits : source < 2 ^ 53) (ht : 0 < target) (fits' : target < 2 ^ 53) :
    ∃ ratio m e, (ratio? target source : Option Float) = some ratio ∧ Binary64.ofFloat ratio = .finite false m e ∧
      IsNearest m e (target / source) := by
  have positive : (0 : ℚ) < source := by exact_mod_cast hs
  have value : (target : ℚ) = target / source * source := (div_mul_cancel₀ _ positive.ne').symm
  have range : target < Binary64.overflowBound * source := by
    have := Nat.mul_le_mul le_overflowBound hs
    omega
  obtain ⟨m, e, parts, nearest⟩ :=
    Binary64.exists_isNearest (Binary64.toBits_nearest target source) value hs.ne' (by omega) range
  refine ⟨Binary64.nearest false target source, m, e, ?_, parts, nearest⟩
  have finite := mt (Binary64.infinite_nearestBits_iff hs.ne').1 (not_le.2 range)
  show (if Binary64.nearestBits target source < 2047 * 2 ^ 52 then some _ else none) = _
  rw [if_pos (not_le.1 finite)]
  rfl

/-! ## 2. Bytes -/

theorem ofFloat_zero_mul (hy : Binary64.ofFloat y = .finite false m e) (pos : 0 < m) :
    Binary64.ofFloat ((0 : Nat).toFloat * y) = .finite false 0 (-1074) := by
  have bits : ((0 : Nat).toFloat * y).toBits.toNat = 0 := by
    show (Float.Model.UnpackedFloat.pack .binary64 (Float.Model.UnpackedFloat.mul .binary64
      (0 : Nat).toFloat.toModel.unpack y.toModel.unpack)).toNat = _
    rw [Number.unpack_of_finite hy pos]
    rfl
  unfold Binary64.ofFloat
  rw [bits]
  rfl

/-- A float that is not tiny has an exponent that is not either. -/
theorem exponent_of_le (short : m < 2 ^ 53) (low : 2 ^ (-53 : Int) ≤ (m : ℚ) * 2 ^ e) : -106 ≤ e := by
  by_contra less
  have unit : (0 : ℚ) < 2 ^ e := by positivity
  have short : (m : ℚ) < 2 ^ 53 := by exact_mod_cast short
  have power : (2 : ℚ) ^ e ≤ 2 ^ (-106 : Int) := zpow_le_zpow_right₀ one_le_two (by omega)
  have bound : (m : ℚ) * 2 ^ e < 2 ^ (-53 : Int) := calc
    (m : ℚ) * 2 ^ e < 2 ^ 53 * 2 ^ e := mul_lt_mul_of_pos_right short unit
    _ ≤ 2 ^ 53 * 2 ^ (-106 : Int) := mul_le_mul_of_nonneg_left power (by positivity)
    _ = 2 ^ (-53 : Int) := by norm_num
  exact absurd low bound.not_ge

/-- The product of a byte and a ratio is the float nearest to it. -/
theorem exists_byte_product (byte : n < 256) (pos : 0 < n) (hy : Binary64.ofFloat y = .finite false m e)
    (short : m < 2 ^ 53) (low : 2 ^ (-53 : Int) ≤ (m : ℚ) * 2 ^ e) (high : (m : ℚ) * 2 ^ e ≤ 2 ^ (53 : Int)) :
    ∃ m' e', Binary64.ofFloat (n.toFloat * y) = .finite false m' e' ∧ IsNearest m' e' (n * (m * 2 ^ e)) ∧
      (m' : ℚ) * 2 ^ e' ≤ 2 ^ (61 : Int) := by
  have exponent := exponent_of_le short low
  have some : 0 < m := by
    rcases Nat.eq_zero_or_pos m with rfl | some
    · norm_num at low
    · exact some
  have one : (1 : ℚ) ≤ n := by exact_mod_cast pos
  have few : (n : ℚ) ≤ 256 := by exact_mod_cast byte.le
  have least : (2 : ℚ) ^ (-53 : Int) ≤ n * (m * 2 ^ e) := by
    calc (2 : ℚ) ^ (-53 : Int) ≤ m * 2 ^ e := low
      _ ≤ n * (m * 2 ^ e) := le_mul_of_one_le_left (by positivity) one
  have most : n * (m * 2 ^ e) ≤ (2 : ℚ) ^ (61 : Int) := by
    calc n * (m * 2 ^ e) ≤ (256 : ℚ) * 2 ^ (53 : Int) := by gcongr
      _ = 2 ^ (61 : Int) := by norm_num
  have normal : 1 ≤ n * (m * 2 ^ e) * (2 : ℚ) ^ 53 := by
    calc (1 : ℚ) = 2 ^ (-53 : Int) * 2 ^ 53 := by norm_num
      _ ≤ n * (m * 2 ^ e) * 2 ^ 53 := by gcongr
  have range : n * (m * (2 : ℚ) ^ e) < Binary64.overflowBound := by
    calc n * (m * (2 : ℚ) ^ e) ≤ 2 ^ (61 : Int) := most
      _ < (2 ^ 62 : Nat) := by norm_num
      _ ≤ Binary64.overflowBound := by exact_mod_cast le_overflowBound
  have bits : n.log2 < 53 := (Nat.log2_lt pos.ne').2 (by omega)
  have value := Binary64.scaled_eq (i := n.log2) (j := 52) (by omega) n
  rw [Nat.cast_ofNat] at value
  rw [← value] at normal range
  obtain ⟨m', e', parts, nearest⟩ := Number.exists_product (Number.ofFloat_toFloat pos (by omega)) hy
    (Binary64.full_mantissa pos (by omega)).1 some (by omega) normal range
  rw [value] at nearest
  exact ⟨m', e', parts, nearest, nearest.le_power (by decide) (by decide) most⟩

/-- The whole part of a float below the integers' bound, as a byte. -/
theorem exists_floorByte (hx : Binary64.ofFloat x = .finite false m e) (most : (m : ℚ) * 2 ^ e ≤ 2 ^ (61 : Int)) :
    ∃ q : Nat, floorByte x = UInt8.ofNat q ∧ (q : ℚ) ≤ m * 2 ^ e ∧ (m : ℚ) * 2 ^ e < q + 1 := by
  obtain ⟨q, floor, low, high⟩ := Binary64.floor?_finite m e
  refine ⟨q, ?_, low, high⟩
  have bound : q ≤ 2 ^ 61 := by exact_mod_cast low.trans most
  have within : -Int.ofNat (Nat.pow 2 63) ≤ (q : Int) ∧ (q : Int) < Int.ofNat (Nat.pow 2 63) := by
    have power : Int.ofNat (Nat.pow 2 63) = 2 ^ 63 := rfl
    omega
  unfold floorByte
  rw [hx, floor]
  show residue256 q = _
  rw [residue256, if_pos within]
  exact UInt8.ofNat_mod_size

/-- Between moduli of at most 53 bits there is a ratio, and it scales every byte. -/
theorem exists_scaling (hs : 0 < source) (fits : source < 2 ^ 53) (ht : 0 < target) (fits' : target < 2 ^ 53) :
    ∃ ratio : Float, ratio? target source = some ratio ∧
      ∀ b : UInt8, ∃ q, scaleByte ratio b = UInt8.ofNat q ∧ Scaled b.toNat target source q := by
  obtain ⟨ratio, m, e, found, parts, nearest⟩ := exists_ratio hs fits ht fits'
  obtain ⟨low, high⟩ := ratio_bounds hs fits ht fits' nearest
  refine ⟨ratio, found, fun b => ?_⟩
  show ∃ q, floorByte (b.toNat.toFloat * ratio) = UInt8.ofNat q ∧ _
  rcases Nat.eq_zero_or_pos b.toNat with zero | pos
  · rw [zero]
    obtain ⟨q, byte, floor, -⟩ := exists_floorByte (ofFloat_zero_mul parts nearest.pos) (by norm_num)
    have none : q = 0 := by
      rw [Nat.cast_zero, zero_mul] at floor
      exact Nat.le_zero.1 (by exact_mod_cast floor)
    exact ⟨q, byte, m, e, nearest, .inl ⟨rfl, none⟩⟩
  · obtain ⟨m', e', product, nearest', most⟩ :=
      exists_byte_product b.toNat_lt pos parts nearest.canonical.short low high
    obtain ⟨q, byte, bounds⟩ := exists_floorByte product most
    exact ⟨q, byte, m, e, nearest, .inr ⟨m', e', nearest', bounds⟩⟩

/-! ## 3. Ciphertexts -/

variable {c : Ciphertext Float}

theorem base_le_atLeastBase (x : Float) : baseNoise ≤ atLeastBase x := by
  unfold atLeastBase
  split
  case isTrue less => exact Number.le_of_lt (of_decide_eq_true less)
  case isFalse => decide +kernel

theorem atLeastBase_not_less_least (x : Float) : NoiseArithmetic.less (atLeastBase x) least = false :=
  decide_eq_false (Codec.not_lt_least (Number.not_lt_of_le (base_le_atLeastBase x)))

/-- Between moduli below `2^53` every ciphertext is switched. Apart from payload and noise it stays as it was, and its
noise is not below the base noise. Every byte is scaled as floats are, which is nearly exact for all moduli; as long as
the exact product is small, or the exact quotient a small whole number, it is exact, or one less where the quotient of
the moduli falls short. -/
theorem modulusSwitch_scales (valid : c.Valid) (hs : 0 < source) (fits : source < 2 ^ 53) (ht : 0 < target)
    (fits' : target < 2 ^ 53) : ∃ payload noise,
    modulusSwitch c source target = .ok { c with payload, noise } ∧ payload.length = c.payload.length ∧
      baseNoise ≤ noise ∧ ∀ (i : Nat) (b : UInt8), c.payload[i]? = some b → ∃ q, payload[i]? = some (UInt8.ofNat q) ∧
        Scaled b.toNat target source q ∧
        2 ^ 51 * (source * q) ≤ 2 ^ 51 * (b.toNat * target) + b.toNat * target ∧
        2 ^ 51 * (b.toNat * target) ≤ 2 ^ 51 * (source * (q + 1)) + b.toNat * target ∧
        (b.toNat * target < 2 ^ 52 ∨ source ∣ b.toNat * target ∧ b.toNat * target < 2 ^ 52 * source →
          q = b.toNat * target / source - if FallsShort b.toNat target source then 1 else 0) := by
  obtain ⟨ratio, found, scales⟩ := exists_scaling hs fits ht fits'
  refine ⟨c.payload.map (scaleByte ratio), atLeastBase (c.noise * ratio), ?_, List.length_map _,
    base_le_atLeastBase _, ?_⟩
  · have positive : ¬ ((source : Int) ≤ 0 ∨ (target : Int) ≤ 0) := by omega
    unfold modulusSwitch
    rw [if_neg positive, Int.toNat_natCast, Int.toNat_natCast, found]
    exact handOut_eq_ok_iff.2 ⟨⟨atLeastBase_not_less_least _, valid.2⟩, rfl⟩
  · intro i b there
    obtain ⟨q, byte, scaled⟩ := scales b
    refine ⟨q, ?_, scaled, ?_⟩
    · rw [List.getElem?_map, there, Option.map_some, byte]
    · obtain ⟨below, above⟩ := scaled.near hs fits ht fits'
      exact ⟨below, above, scaled.eq hs fits ht fits'⟩

def twoBytes : Ciphertext Float := ⟨[27, 9], 3.2, 1, 2, false, true⟩

/-- Between 3 and 13 one byte of the two falls short. -/
theorem modulusSwitch_scales_twoBytes : twoBytes.Valid ∧ (0 < 3 ∧ 3 < 2 ^ 53) ∧ (0 < 13 ∧ 13 < 2 ^ 53) ∧
    ∃ payload noise, modulusSwitch twoBytes (3 : Nat) (13 : Nat) = .ok { twoBytes with payload, noise } ∧
      baseNoise ≤ noise ∧ payload[0]? = some 116 ∧ payload[1]? = some 39 := by
  have valid : twoBytes.Valid := by decide +kernel
  obtain ⟨payload, noise, switched, -, enough, bytes⟩ :=
    modulusSwitch_scales valid (by decide : 0 < 3) (by decide) (by decide : 0 < 13) (by decide)
  obtain ⟨q₀, first, -, -, -, value₀⟩ := bytes 0 27 rfl
  obtain ⟨q₁, second, -, -, -, value₁⟩ := bytes 1 9 rfl
  have short : FallsShort (27 : UInt8).toNat 13 3 := by decide +kernel
  have exact : ¬ FallsShort (9 : UInt8).toNat 13 3 := by decide +kernel
  have value₀ := value₀ (.inl (by decide))
  have value₁ := value₁ (.inl (by decide))
  rw [if_pos short] at value₀
  rw [if_neg exact] at value₁
  obtain rfl : q₀ = 116 := value₀
  obtain rfl : q₁ = 39 := value₁
  exact ⟨valid, by decide, by decide, payload, noise, switched, enough, first, second⟩

/-- Bytes are not always scaled exactly: `27 · 13 / 3` is `117`. -/
theorem modulusSwitch_inexact : ¬ ∀ (c r : Ciphertext Float) (source target : Nat), c.Valid → 0 < source →
    source < 2 ^ 53 → 0 < target → target < 2 ^ 53 → modulusSwitch c source target = .ok r →
      r.payload = c.payload.map fun b => UInt8.ofNat (b.toNat * target / source) := by
  intro scales
  have valid : Ciphertext.Valid (⟨[27], 3.2, 0, 2, false, false⟩ : Ciphertext Float) := by decide +kernel
  have payload : (modulusSwitch (⟨[27], 3.2, 0, 2, false, false⟩ : Ciphertext Float) (3 : Nat)
      (13 : Nat)).toOption.map (·.payload) = some [116] := by decide +kernel
  cases switched : modulusSwitch (⟨[27], 3.2, 0, 2, false, false⟩ : Ciphertext Float) (3 : Nat) (13 : Nat) with
  | error e =>
    rw [switched] at payload
    cases payload
  | ok r =>
    have exact := scales _ r 3 13 valid (by decide) (by decide) (by decide) (by decide) switched
    rw [switched] at payload
    have short : r.payload = [116] := Option.some_inj.1 payload
    rw [short] at exact
    exact absurd exact (by decide)

end SealedFields.Engine
