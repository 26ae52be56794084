import SealedFields.Proofs.Number.FloatBounds

/-!
# Floats and their bits

The bits of a float are its mantissa with the exponent above it, so that the numbers from zero up are ordered
like their bits. Taking a float apart and putting it together again gives the same bits.
-/

namespace SealedFields.Number

open Float.Model
open Float.Model.UnpackedFloat

/-! ## 1. Fields -/

theorem toNat_unpackMantissa (b : BitVec 64) : (@unpackMantissa .binary64 b).toNat = b.toNat % 2 ^ 52 := by
  simp [unpackMantissa]

theorem toNat_unpackExponent (b : BitVec 64) :
    (@unpackExponent .binary64 b).toNat = b.toNat / 2 ^ 52 % 2 ^ 11 := by
  simp [unpackExponent, Nat.shiftRight_eq_div_pow]

theorem toNat_unpackSign (b : BitVec 64) : (@unpackSign .binary64 b).toNat = b.toNat / 2 ^ 63 % 2 := by
  simp [unpackSign, Nat.shiftRight_eq_div_pow]

theorem toNat_packComponents (s : Sign) (e : BitVec 11) (m : BitVec 52) :
    (packComponents .binary64 s e m).toNat = s.toBitVec.toNat * 2 ^ 63 + e.toNat * 2 ^ 52 + m.toNat := by
  have he := e.isLt
  have hm := m.isLt
  unfold packComponents
  rw [BitVec.toNat_append, BitVec.toNat_append, ← Nat.shiftLeft_add_eq_or_of_lt hm, ← Nat.shiftLeft_add_eq_or_of_lt he,
    Nat.shiftLeft_eq, Nat.shiftLeft_eq]
  omega

def isNegative (s : Sign) : Bool := match s with | .negative => true | .positive => false

/-- The parts of a number, as they are told apart here. -/
def ofUnpacked : UnpackedFloat → Binary64
  | .notANumber => .nan
  | .infinity s => .infinite (isNegative s)
  | .zero s => .finite (isNegative s) 0 (-1074)
  | .finite s m e _ => .finite (isNegative s) m e

theorem isNegative_unpackSign (b : BitVec 64) :
    isNegative (Sign.ofBitVec (@unpackSign .binary64 b)) = decide (b.toNat / 2 ^ 63 % 2 = 1) := by
  have sign := toNat_unpackSign b
  unfold Sign.ofBitVec
  by_cases zero : @unpackSign .binary64 b = 0#1
  · rw [if_pos zero]
    rw [zero] at sign
    have : b.toNat / 2 ^ 63 % 2 = 0 := sign.symm
    rw [this]
    rfl
  · rw [if_neg zero]
    have : (@unpackSign .binary64 b).toNat ≠ 0 := fun h => zero (BitVec.eq_of_toNat_eq h)
    have : b.toNat / 2 ^ 63 % 2 = 1 := by omega
    rw [this]
    rfl

theorem ofBits_toNat (b : BitVec 64) : Binary64.ofBits b.toNat = ofUnpacked (UnpackedFloat.unpack .binary64 b) := by
  have mantissa := toNat_unpackMantissa b
  have exponent := toNat_unpackExponent b
  have sign := isNegative_unpackSign b
  have bound := b.isLt
  unfold Binary64.ofBits UnpackedFloat.unpack
  dsimp only
  rw [exponentBias_binary64]
  show (if b.toNat / 2 ^ 52 % 2 ^ 11 = 2047 then
      if b.toNat % 2 ^ 52 = 0 then Binary64.infinite (decide (b.toNat / 2 ^ 63 % 2 = 1)) else Binary64.nan
    else if b.toNat / 2 ^ 52 % 2 ^ 11 = 0 then
      .finite (decide (b.toNat / 2 ^ 63 % 2 = 1)) (b.toNat % 2 ^ 52) (-1074)
    else .finite (decide (b.toNat / 2 ^ 63 % 2 = 1)) (b.toNat % 2 ^ 52 + 2 ^ 52)
      (Int.ofNat (b.toNat / 2 ^ 52 % 2 ^ 11) - 1075)) = _
  rw [← mantissa, ← exponent, ← sign]
  have full : (@unpackExponent .binary64 b).toNat = 2047 ↔ @unpackExponent .binary64 b = -1#11 := by
    rw [← BitVec.toNat_inj]
    rfl
  have least : (@unpackExponent .binary64 b).toNat = 0 ↔ @unpackExponent .binary64 b = 0#11 := by
    rw [← BitVec.toNat_inj]
    rfl
  have zero : (@unpackMantissa .binary64 b).toNat = 0 ↔ @unpackMantissa .binary64 b = 0#52 := by
    rw [← BitVec.toNat_inj]
    rfl
  simp only [full, zero]
  by_cases h : @unpackExponent .binary64 b = -1#11
  · rw [if_pos h, if_pos h]
    by_cases h' : @unpackMantissa .binary64 b = 0#52
    · rw [if_pos h', if_pos h', ofUnpacked]
    · rw [if_neg h', if_neg h', ofUnpacked]
  · rw [if_neg h, if_neg h]
    by_cases h' : @unpackExponent .binary64 b = 0#11
    · rw [if_pos (least.2 h'), if_pos h', least.2 h']
      by_cases h'' : @unpackMantissa .binary64 b = 0#52
      · rw [dif_pos h'', zero.2 h'', ofUnpacked]
      · rw [dif_neg h'', ofUnpacked]
        rfl
    · rw [if_neg (mt least.1 h'), if_neg h', ofUnpacked, toNat_leading, Nat.add_comm]
      rfl

theorem ofFloat_eq (x : Float) : Binary64.ofFloat x = ofUnpacked x.toModel.unpack :=
  ofBits_toNat x.toModel.toBits.toBitVec

theorem pack_normal {s : Sign} {m : Nat} {e : Int} {pos : 0 < m} (low : 2 ^ 52 ≤ m) (high : m < 2 ^ 53)
    (least : -1074 ≤ e) (most : e < 972) : UnpackedFloat.pack .binary64 (.finite s m e pos)
      = packComponents .binary64 s (BitVec.ofNat 11 (e + 1075).toNat) (BitVec.ofNat 52 m) := by
  have bits : m.log2 + 1 = Format.mantissaBits .binary64 := by
    rw [(Nat.log2_eq_iff (by omega)).2 ⟨low, high⟩]
    rfl
  have biased : e + 1023 + (52 : Nat) = e + 1075 := by omega
  have fits : ¬ 2 ^ 11 ≤ (e + 1075).toNat + 1 := by omega
  unfold UnpackedFloat.pack
  dsimp only
  rw [exponentBias_binary64, biased, if_neg fits, if_pos bits]

theorem pack_subnormal {s : Sign} {m : Nat} {pos : 0 < m} (high : m < 2 ^ 52) :
    UnpackedFloat.pack .binary64 (.finite s m (-1074) pos)
      = packComponents .binary64 s 0#11 (BitVec.ofNat 52 m) := by
  have bits : ¬ m.log2 + 1 = Format.mantissaBits .binary64 := by
    have short : m.log2 < 52 := (Nat.log2_lt (by omega)).2 high
    show ¬ m.log2 + 1 = 53
    omega
  have fits : ¬ 2 ^ 11 ≤ (-1074 + 1023 + (52 : Nat) : Int).toNat + 1 := by decide
  unfold UnpackedFloat.pack
  dsimp only
  rw [exponentBias_binary64, if_neg fits, if_neg bits]

theorem toNat_pack {s : Sign} {m : Nat} {e : Int} {pos : 0 < m} (canonical : Canonical m e) :
    (UnpackedFloat.pack .binary64 (.finite s m e pos)).toNat
      = s.toBitVec.toNat * 2 ^ 63 + min ((e + 1074).toNat * 2 ^ 52 + m) (2047 * 2 ^ 52) := by
  obtain ⟨short, least, normal⟩ := canonical
  by_cases full : 2 ^ 52 ≤ m
  · by_cases most : e < 972
    · rw [pack_normal full short least most, toNat_packComponents, BitVec.toNat_ofNat, BitVec.toNat_ofNat]
      omega
    · have large : 2 ^ 11 ≤ (e + 1023 + (52 : Nat)).toNat + 1 := by omega
      unfold UnpackedFloat.pack
      dsimp only
      rw [exponentBias_binary64, if_pos large, packedInfinity, toNat_packComponents]
      have ones : (-1#11).toNat = 2047 := by decide
      have none : (0#52).toNat = 0 := rfl
      show s.toBitVec.toNat * 2 ^ 63 + (-1#11).toNat * 2 ^ 52 + (0#52).toNat = _
      rw [ones, none]
      omega
  · obtain rfl := normal.resolve_left full
    have none : (0#11).toNat = 0 := rfl
    rw [pack_subnormal (by omega), toNat_packComponents, none, BitVec.toNat_ofNat]
    omega


theorem toNat_sign (s : Sign) : s.toBitVec.toNat = if isNegative s then 1 else 0 := by
  cases s <;> rfl

/-- The bits of a finite number: exponent and mantissa run into each other, as the mantissa's first bit counts. -/
theorem ofBits_eq_finite {n : Nat} (bound : n < 2 ^ 64) {negative : Bool} {m : Nat} {e : Int}
    (h : Binary64.ofBits n = .finite negative m e) :
    n = (if negative then 1 else 0) * 2 ^ 63 + ((e + 1074).toNat * 2 ^ 52 + m) ∧ Canonical m e ∧ e < 972 := by
  have h : (if n / 2 ^ 52 % 2048 = 2047 then
      if n % 2 ^ 52 = 0 then Binary64.infinite (decide (n / 2 ^ 63 % 2 = 1)) else Binary64.nan
    else if n / 2 ^ 52 % 2048 = 0 then .finite (decide (n / 2 ^ 63 % 2 = 1)) (n % 2 ^ 52) (-1074)
    else .finite (decide (n / 2 ^ 63 % 2 = 1)) (n % 2 ^ 52 + 2 ^ 52) (Int.ofNat (n / 2 ^ 52 % 2048) - 1075))
      = .finite negative m e := h
  split at h
  case isTrue => split at h <;> cases h
  case isFalse full =>
    split at h
    case isTrue least =>
      obtain ⟨sign, rfl, rfl⟩ := Binary64.finite.inj h
      refine ⟨?_, ⟨by omega, by omega, .inr rfl⟩, by omega⟩
      cases negative <;> simp at sign ⊢ <;> omega
    case isFalse normal =>
      obtain ⟨sign, rfl, rfl⟩ := Binary64.finite.inj h
      have exponent : Int.ofNat (n / 2 ^ 52 % 2048) = ((n / 2 ^ 52 % 2048 : Nat) : Int) := rfl
      rw [exponent]
      refine ⟨?_, ⟨by omega, by omega, .inl (by omega)⟩, by omega⟩
      cases negative <;> simp at sign ⊢ <;> omega

theorem ofBits_eq_infinite {n : Nat} (bound : n < 2 ^ 64) {negative : Bool}
    (h : Binary64.ofBits n = .infinite negative) :
    n = (if negative then 1 else 0) * 2 ^ 63 + 2047 * 2 ^ 52 := by
  have h : (if n / 2 ^ 52 % 2048 = 2047 then
      if n % 2 ^ 52 = 0 then Binary64.infinite (decide (n / 2 ^ 63 % 2 = 1)) else Binary64.nan
    else if n / 2 ^ 52 % 2048 = 0 then .finite (decide (n / 2 ^ 63 % 2 = 1)) (n % 2 ^ 52) (-1074)
    else .finite (decide (n / 2 ^ 63 % 2 = 1)) (n % 2 ^ 52 + 2 ^ 52) (Int.ofNat (n / 2 ^ 52 % 2048) - 1075))
      = .infinite negative := h
  split at h
  case isTrue full =>
    split at h
    case isTrue zero =>
      have sign := Binary64.infinite.inj h
      cases negative <;> simp at sign ⊢ <;> omega
    case isFalse => cases h
  case isFalse => split at h <;> cases h

theorem ofBits_eq_nan {n : Nat} (h : Binary64.ofBits n = .nan) : n / 2 ^ 52 % 2048 = 2047 ∧ n % 2 ^ 52 ≠ 0 := by
  have h : (if n / 2 ^ 52 % 2048 = 2047 then
      if n % 2 ^ 52 = 0 then Binary64.infinite (decide (n / 2 ^ 63 % 2 = 1)) else Binary64.nan
    else if n / 2 ^ 52 % 2048 = 0 then .finite (decide (n / 2 ^ 63 % 2 = 1)) (n % 2 ^ 52) (-1074)
    else .finite (decide (n / 2 ^ 63 % 2 = 1)) (n % 2 ^ 52 + 2 ^ 52) (Int.ofNat (n / 2 ^ 52 % 2048) - 1075))
      = .nan := h
  split at h
  case isTrue full =>
    split at h
    case isTrue => cases h
    case isFalse some => exact ⟨full, some⟩
  case isFalse => split at h <;> cases h

/-- Bits that are not NaN are packed as they were unpacked. -/
theorem toNat_pack_unpack {b : BitVec 64} (number : Binary64.ofBits b.toNat ≠ .nan) :
    (UnpackedFloat.pack .binary64 (UnpackedFloat.unpack .binary64 b)).toNat = b.toNat := by
  have parts := ofBits_toNat b
  cases unpacked : UnpackedFloat.unpack .binary64 b with
  | notANumber =>
    rw [unpacked] at parts
    exact absurd parts number
  | infinity s =>
    rw [unpacked] at parts
    have ones : (-1#11).toNat = 2047 := by decide
    have none : (0#52).toNat = 0 := rfl
    show (packComponents .binary64 s (-1#11) 0#52).toNat = _
    rw [toNat_packComponents, toNat_sign, ones, none, Nat.add_zero, ← ofBits_eq_infinite b.isLt parts]
  | zero s =>
    rw [unpacked] at parts
    obtain ⟨bits, -, -⟩ := ofBits_eq_finite b.isLt parts
    have none : (0#11).toNat = 0 := rfl
    have none' : (0#52).toNat = 0 := rfl
    show (packComponents .binary64 s 0#11 0#52).toNat = _
    rw [toNat_packComponents, toNat_sign, none, none', bits]
    omega
  | finite s m e pos =>
    rw [unpacked] at parts
    obtain ⟨bits, canonical, most⟩ := ofBits_eq_finite b.isLt parts
    have short := canonical.short
    rw [toNat_pack canonical, toNat_sign, bits]
    omega

theorem toBits_ofBits {n : Nat} (bound : n < 2 ^ 64) (number : Binary64.ofBits n ≠ .nan) :
    (Float.ofBits (UInt64.ofNat n)).toBits.toNat = n := by
  have word : (UInt64.ofNat n).toBitVec.toNat = n := Nat.mod_eq_of_lt bound
  have same := @toNat_pack_unpack (UInt64.ofNat n).toBitVec (by rwa [word])
  rw [word] at same
  exact same

theorem eq_of_toBits {x y : Float} (h : x.toBits.toNat = y.toBits.toNat) : x = y := by
  obtain ⟨⟨bits, valid⟩⟩ := x
  obtain ⟨⟨bits', valid'⟩⟩ := y
  obtain rfl : bits = bits' := UInt64.toNat_inj.1 h
  rfl

/-- There is one NaN. -/
theorem eq_nan {x : Float} (h : Binary64.ofFloat x = .nan) : x = Float.ofBits 0x7FF8000000000000 := by
  obtain ⟨⟨bits, valid⟩⟩ := x
  have parts : Binary64.ofBits bits.toBitVec.toNat = .nan := h
  obtain ⟨full, some⟩ := ofBits_eq_nan parts
  have canonical : bits.toBitVec = packedNaN .binary64 := by
    apply valid.eq_packedNaN
    · apply BitVec.eq_of_toNat_eq
      rw [toNat_unpackExponent]
      exact full
    · intro zero
      have none : (0#52).toNat = 0 := rfl
      have mantissa := toNat_unpackMantissa bits.toBitVec
      rw [zero, none] at mantissa
      exact some mantissa.symm
  apply eq_of_toBits
  show bits.toBitVec.toNat = _
  rw [canonical]
  rfl

theorem unpack_of_finite {x : Float} {m : Nat} {e : Int} (h : Binary64.ofFloat x = .finite false m e) (pos : 0 < m) :
    x.toModel.unpack = .finite .positive m e pos := by
  rw [ofFloat_eq] at h
  match hx : x.toModel.unpack, h with
  | .zero .positive, h =>
    cases h
    omega
  | .finite .positive m e _, h =>
    cases h
    rfl

/-! ## 5. Order -/

/-- The numbers from zero up, with their bits. -/
inductive Nonnegative : UnpackedFloat → Nat → Prop
  | zero : Nonnegative (.zero .positive) 0
  | finite {m : Nat} {e : Int} {pos : 0 < m} (canonical : Canonical m e) (most : e < 972) :
    Nonnegative (.finite .positive m e pos) ((e + 1074).toNat * 2 ^ 52 + m)
  | infinity : Nonnegative (.infinity .positive) (2047 * 2 ^ 52)

theorem nonnegative_unpack {b : BitVec 64} (le : b.toNat ≤ 2047 * 2 ^ 52) :
    Nonnegative (UnpackedFloat.unpack .binary64 b) b.toNat := by
  have parts := ofBits_toNat b
  cases unpacked : UnpackedFloat.unpack .binary64 b with
  | notANumber =>
    rw [unpacked] at parts
    have bits := ofBits_eq_nan parts
    omega
  | infinity s =>
    rw [unpacked] at parts
    have bits := ofBits_eq_infinite b.isLt parts
    cases s with
    | negative =>
      have sign : (if isNegative .negative then 1 else 0) = 1 := rfl
      omega
    | positive =>
      rw [bits]
      exact .infinity
  | zero s =>
    rw [unpacked] at parts
    obtain ⟨bits, -, -⟩ := ofBits_eq_finite b.isLt parts
    cases s with
    | negative =>
      have sign : (if isNegative .negative then 1 else 0) = 1 := rfl
      omega
    | positive =>
      rw [bits]
      exact .zero
  | finite s m e pos =>
    rw [unpacked] at parts
    obtain ⟨bits, canonical, most⟩ := ofBits_eq_finite b.isLt parts
    cases s with
    | negative =>
      have sign : (if isNegative .negative then 1 else 0) = 1 := rfl
      omega
    | positive =>
      have sign : (if isNegative .positive then 1 else 0) = 0 := rfl
      rw [bits, sign, Nat.zero_mul, Nat.zero_add]
      exact .finite canonical most

/-- Numbers from zero up are ordered like their bits. -/
theorem Nonnegative.compare_eq {u v : UnpackedFloat} {n n' : Nat} (h : Nonnegative u n) (h' : Nonnegative v n') :
    u.compare v = some (compare n n') := by
  have none (m : Nat) (e : Int) (pos : 0 < m) : 0 < (e + 1074).toNat * 2 ^ 52 + m := by omega
  have finite {m : Nat} {e : Int} (canonical : Canonical m e) (most : e < 972) :
      (e + 1074).toNat * 2 ^ 52 + m < 2047 * 2 ^ 52 := by
    have short := canonical.short
    omega
  cases h with
  | zero =>
    cases h' with
    | zero => rfl
    | @finite m e pos canonical most => exact congrArg some (compare_lt_iff_lt.2 (none m e pos)).symm
    | infinity => rfl
  | @finite m e pos canonical most =>
    cases h' with
    | zero => exact congrArg some (compare_gt_iff_gt.2 (none m e pos)).symm
    | @finite m' e' pos' canonical' most' =>
      obtain ⟨short, least, normal⟩ := canonical
      obtain ⟨short', least', normal'⟩ := canonical'
      apply congrArg some
      rcases lt_trichotomy e e' with less | rfl | more
      · rw [compare_lt_iff_lt.2 less]
        apply (compare_lt_iff_lt.2 _).symm
        omega
      · rw [compare_eq_iff_eq.2 rfl, Ordering.eq_then]
        rcases lt_trichotomy m m' with less | rfl | more
        · rw [compare_lt_iff_lt.2 less, compare_lt_iff_lt.2 (by omega)]
        · rw [compare_eq_iff_eq.2 rfl, compare_eq_iff_eq.2 rfl]
        · rw [compare_gt_iff_gt.2 more, compare_gt_iff_gt.2 (by omega)]
      · rw [compare_gt_iff_gt.2 more]
        apply (compare_gt_iff_gt.2 _).symm
        show _ < _
        omega
    | infinity => exact congrArg some (compare_lt_iff_lt.2 (finite canonical most)).symm
  | infinity =>
    cases h' with
    | zero => rfl
    | @finite m e pos canonical most => exact congrArg some (compare_gt_iff_gt.2 (finite canonical most)).symm
    | infinity => rfl

section

variable {x y : Float}

/-- The float is zero or more, infinity included. -/
def FromZero (x : Float) : Prop := x.toBits.toNat ≤ 2047 * 2 ^ 52

instance (x : Float) : Decidable (FromZero x) := inferInstanceAs (Decidable (_ ≤ _))

theorem FromZero.nonnegative (hx : FromZero x) : Nonnegative x.toModel.unpack x.toBits.toNat := nonnegative_unpack hx

/-- A float above zero is infinite, or has a mantissa. -/
theorem FromZero.cases (hx : FromZero x) (positive : 0 < x.toBits.toNat) :
    Binary64.ofFloat x = .infinite false ∨ ∃ m e, Binary64.ofFloat x = .finite false m e ∧ 0 < m := by
  have number := hx.nonnegative
  rw [ofFloat_eq]
  generalize x.toModel.unpack = u at number
  generalize x.toBits.toNat = n at number positive
  cases number with
  | zero => omega
  | @finite m e pos => exact .inr ⟨m, e, rfl, pos⟩
  | infinity => exact .inl rfl

theorem fromZero_of_finite {m : Nat} {e : Int} {pos : 0 < m} (h : x.toModel.unpack = .finite .positive m e pos) :
    FromZero x := by
  have parts := ofFloat_eq x
  rw [h] at parts
  obtain ⟨bits, canonical, most⟩ := ofBits_eq_finite x.toBits.toBitVec.isLt parts
  have short := canonical.short
  have sign : (if isNegative .positive then 1 else 0) = 0 := rfl
  show x.toBits.toBitVec.toNat ≤ _
  omega

theorem fromZero_of_infinity (h : x.toModel.unpack = .infinity .positive) : FromZero x := by
  have parts := ofFloat_eq x
  rw [h] at parts
  have bits := ofBits_eq_infinite x.toBits.toBitVec.isLt parts
  have sign : (if isNegative .positive then 1 else 0) = 0 := rfl
  show x.toBits.toBitVec.toNat ≤ _
  omega

theorem lt_iff_toBits (hx : FromZero x) (hy : FromZero y) : x < y ↔ x.toBits.toNat < y.toBits.toNat := by
  rw [lt_iff, beq_iff_eq, hx.nonnegative.compare_eq hy.nonnegative, Option.some_inj, compare_lt_iff_lt]

theorem le_iff_toBits (hx : FromZero x) (hy : FromZero y) : x ≤ y ↔ x.toBits.toNat ≤ y.toBits.toNat := by
  rw [le_iff, hx.nonnegative.compare_eq hy.nonnegative, Option.any_some, Nat.isLE_compare]

/-- What reaches a number above zero is above zero itself. -/
theorem FromZero.of_le (hx : FromZero x) (positive : 0 < x.toBits.toNat) (le : x ≤ y) : FromZero y := by
  rw [le_iff] at le
  have least := hx.nonnegative
  generalize x.toModel.unpack = u at le least
  generalize x.toBits.toNat = n at positive least
  cases least with
  | zero => omega
  | finite =>
    match hy : y.toModel.unpack, le with
    | .infinity .positive, _ => exact fromZero_of_infinity hy
    | .finite .positive m e pos, _ => exact fromZero_of_finite hy
  | infinity =>
    match hy : y.toModel.unpack, le with
    | .infinity .positive, _ => exact fromZero_of_infinity hy

theorem FromZero.isNaN (hx : FromZero x) : x.isNaN = false := by
  show x.toModel.unpack.isNaN = false
  have number := hx.nonnegative
  generalize x.toModel.unpack = u at number
  generalize x.toBits.toNat = n at number
  cases number <;> rfl

theorem not_lt_of_isNaN (h : x.isNaN = true) : ¬ x < y := by
  have unpacked : x.toModel.unpack.isNaN = true := h
  rw [lt_iff]
  match x.toModel.unpack, unpacked with
  | .notANumber, _ => exact Bool.false_ne_true

theorem not_lt_of_le (h : x ≤ y) : ¬ y < x := by
  rw [le_iff] at h
  rw [lt_iff, compare_swap x.toModel.unpack]
  match UnpackedFloat.compare x.toModel.unpack y.toModel.unpack, h with
  | some .lt, _ => exact Bool.false_ne_true
  | some .eq, _ => exact Bool.false_ne_true

/-- What is not below a number above zero is not below any smaller one, even if it is NaN. -/
theorem FromZero.not_lt_of_not_lt {z : Float} (hx : FromZero x) (hy : FromZero y) (positive : 0 < y.toBits.toNat)
    (le : x ≤ y) (h : ¬ z < y) : ¬ z < x := by
  by_cases number : z.isNaN = false
  · have reaches : y ≤ z := (le_or_lt hy.isNaN number).resolve_right h
    have hz := hy.of_le positive reaches
    rw [le_iff_toBits hx hy] at le
    rw [le_iff_toBits hy hz] at reaches
    rw [lt_iff_toBits hz hx]
    omega
  · exact not_lt_of_isNaN (by simpa using number)

end

end SealedFields.Number
