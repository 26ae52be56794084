import SealedFields.Proofs.Ciphertext.Fresh
import SealedFields.Proofs.Ciphertext.Serialized
import SealedFields.Proofs.Number.Products
import SealedFields.Proofs.Number.Thousandths

/-!
# The compressed form, written again

The compressed form keeps the noise in whole thousandths. A ciphertext that was read from it is written as it was,
unless its thousandths drift. Noise between the least there is and the base noise is rounded down below both, and
is not read.
-/

namespace SealedFields.Wire

open Number (Binary64 Canonical FromZero)
open Number.Binary64 (IsNearest)
open Number.Thousandths (Counted Drifts)

variable {x y : Float} {m m' n n' : Nat} {e e' : Int}

/-! ## 1. Noise in thousandths -/

/-- A float that is at least one and far below the greatest, taken apart. -/
structure Moderate (x : Float) (m : Nat) (e : Int) : Prop where
  parts : Binary64.ofFloat x = .finite false m e
  full : 2 ^ 52 ≤ m
  least : -52 ≤ e
  most : e ≤ 950

theorem Moderate.canonical (h : Moderate x m e) : Canonical m e :=
  (Number.ofBits_eq_finite x.toBits.toBitVec.isLt h.parts).2.1

theorem Moderate.bits (h : Moderate x m e) : x.toBits.toNat = (e + 1074).toNat * 2 ^ 52 + m := by
  obtain ⟨bits, -⟩ := Number.ofBits_eq_finite x.toBits.toBitVec.isLt h.parts
  have sign : (if false then 1 else 0) = 0 := rfl
  exact bits.trans (by omega)

theorem Moderate.one_le (h : Moderate x m e) : 1 ≤ (m : ℚ) * 2 ^ e := by
  have full : (2 : ℚ) ^ 52 ≤ m := by exact_mod_cast h.full
  calc (1 : ℚ) = 2 ^ 52 * 2 ^ (-52 : Int) := by norm_num
    _ ≤ m * 2 ^ e := by
      gcongr
      · exact one_le_two
      · exact h.least

theorem Moderate.lt_bound (h : Moderate x m e) : 1024 * ((m : ℚ) * 2 ^ e) < Binary64.overflowBound := by
  have short : (m : ℚ) < 2 ^ 53 := by exact_mod_cast h.canonical.short
  have power : (2 : ℚ) ^ (970 : Int) = 2 ^ 20 * 2 ^ (950 : Int) := by
    rw [← zpow_natCast, ← zpow_add₀ two_ne_zero]
    rfl
  have le : (2 : ℚ) ^ e ≤ 2 ^ (950 : Int) := zpow_le_zpow_right₀ one_le_two h.most
  have unit : (0 : ℚ) < 2 ^ (950 : Int) := by positivity
  rw [Binary64.overflowBound_eq, power]
  clear power
  generalize (2 : ℚ) ^ (950 : Int) = u at *
  calc 1024 * ((m : ℚ) * 2 ^ e) ≤ 1024 * (2 ^ 53 * u) := by gcongr
    _ < (2 ^ 54 - 1) * (2 ^ 20 * u) := by linarith

theorem Moderate.isNearest_shift {i : Int} (h : Moderate x m e) (nonneg : 0 ≤ i) (few : i ≤ 10) :
    IsNearest m (e + i) (m * 2 ^ (e + i)) := by
  have full := h.full
  have least := h.least
  have most := h.most
  exact Binary64.isNearest_self ⟨h.canonical.short, by omega, .inl full⟩ (by omega) (by omega)

theorem moderate_of_bits (least : 1023 * 2 ^ 52 ≤ x.toBits.toNat) (most : x.toBits.toNat < 2020 * 2 ^ 52) :
    ∃ m e, Moderate x m e ∧ e < 945 := by
  have fromZero : FromZero x := by
    unfold FromZero
    omega
  rcases fromZero.cases (by omega) with infinite | ⟨m, e, parts, -⟩
  · have bits : x.toBits.toNat = _ := Number.ofBits_eq_infinite x.toBits.toBitVec.isLt infinite
    have sign : (if false then 1 else 0) = 0 := rfl
    omega
  · obtain ⟨bits, ⟨short, low, normal⟩, -⟩ := Number.ofBits_eq_finite x.toBits.toBitVec.isLt parts
    have bits : x.toBits.toNat = _ := bits
    have sign : (if false then 1 else 0) = 0 := rfl
    exact ⟨m, e, ⟨parts, by omega, by omega, by omega⟩, by omega⟩

/-- Moderate noise is counted. -/
theorem exists_noiseUnits (h : Moderate x m e) :
    ∃ n : Nat, noiseUnits x = .ok (n : Int) ∧ Counted (m * 2 ^ e) n := by
  have least := h.least
  have scale : Binary64.ofFloat noiseScale.toFloat = .finite false (1000 * 2 ^ 43) (-43) := by decide
  have thousand : ((1000 * 2 ^ 43 : Nat) : ℚ) * 2 ^ (-43 : Int) = 1000 := by norm_num
  obtain ⟨mp, ep, product, nearest⟩ := Number.exists_product h.parts scale h.full (by decide) (by omega)
    (by rw [thousand]; linarith [h.one_le]) (by rw [thousand]; linarith [h.lt_bound, h.one_le])
  rw [thousand, mul_comm] at nearest
  obtain ⟨n, floor, bounds⟩ := Binary64.floor?_finite mp ep
  refine ⟨n, ?_, mp, ep, nearest, bounds⟩
  unfold noiseUnits
  rw [product]
  show Except.ok ((Binary64.finite false mp ep).floor?.getD 0) = _
  rw [floor]
  rfl

theorem counted_noiseUnits (h : Moderate x m e) (counted : noiseUnits x = .ok (n : Int)) : Counted (m * 2 ^ e) n := by
  obtain ⟨n', counted', whole⟩ := exists_noiseUnits h
  have same : (n : Int) = n' := Except.ok.inj (counted.symm.trans counted')
  rwa [Int.ofNat_inj.1 same]

/-- Greater noise has the greater count. -/
theorem noiseUnits_mono (h : Moderate x m e) (h' : Moderate y m' e') (le : x.toBits.toNat ≤ y.toBits.toNat)
    (counted : noiseUnits x = .ok (n : Int)) (counted' : noiseUnits y = .ok (n' : Int)) : n ≤ n' := by
  rw [h.bits, h'.bits] at le
  exact (counted_noiseUnits h counted).mono (counted_noiseUnits h' counted')
    (Binary64.value_le_of_bits_le h.canonical h'.canonical le)

/-- The count is at most 1024 times the noise, which is a float as well. -/
theorem noiseUnits_le (h : Moderate x m e) (counted : noiseUnits x = .ok (n : Int)) :
    (n : ℚ) ≤ 1024 * (m * 2 ^ e) := by
  obtain ⟨mp, ep, product, floor, -⟩ := counted_noiseUnits h counted
  have shifted := h.isNearest_shift (i := 10) (by decide) (by decide)
  have power : (m : ℚ) * 2 ^ (e + 10) = 1024 * (m * 2 ^ e) := by
    rw [zpow_add₀ two_ne_zero]
    norm_num
    ring
  rw [power] at shifted
  have bound := product.mono shifted (by nlinarith [h.one_le])
  linarith

/-- The float nearest to the quotient of a count is moderate as well, and reaches the base noise. -/
theorem moderate_quotient (h : Moderate x m e) (low : e < 945) (counted : noiseUnits x = .ok (n : Int))
    (least : 3200 ≤ n) : ∃ my ey, Moderate (Binary64.nearest false n 1000) my ey ∧ IsNearest my ey (n / 1000) ∧
      baseNoise.toBits.toNat ≤ (Binary64.nearest false n 1000).toBits.toNat := by
  have exponent := h.least
  have most := noiseUnits_le h counted
  have value := Number.Thousandths.quotient_eq n
  have range : n < Binary64.overflowBound * 1000 := by
    rw [← Nat.cast_lt (α := ℚ), Nat.cast_mul]
    push_cast
    linarith [h.lt_bound, h.one_le]
  have bits := Binary64.toBits_nearest n 1000
  obtain ⟨my, ey, parts, nearest⟩ := Binary64.exists_isNearest bits value (by decide) (by omega) range
  have base : Binary64.nearestBits 3200 1000 ≤ Binary64.nearestBits n 1000 :=
    Binary64.nearestBits_le_nearestBits (by decide) (by decide) (by omega)
  have first : Binary64.nearestBits 3200 1000 = baseNoise.toBits.toNat := by decide
  have second : 1023 * 2 ^ 52 ≤ baseNoise.toBits.toNat := by decide
  -- The quotient is less than twice the noise.
  have double := h.isNearest_shift (i := 1) (by decide) (by decide)
  have above : ey ≤ e + 1 := by
    apply Binary64.exponent_le_of_value_le nearest.canonical double.canonical
    apply nearest.mono double
    rw [zpow_add_one₀ two_ne_zero]
    linarith [h.one_le]
  have fields := nearest.bits value (by decide)
  obtain ⟨short, least, normal⟩ := nearest.canonical
  exact ⟨my, ey, ⟨parts, by omega, by omega, by omega⟩, nearest, by omega⟩

/-- A count stands for noise of which it is counted again unless it drifts. -/
theorem exists_quotient (h : Moderate x m e) (low : e < 945) (counted : noiseUnits x = .ok (n : Int))
    (least : 3200 ≤ n) :
    ∃ y : Float, Binary64.quotient? n noiseScale = some y ∧ baseNoise.toBits.toNat ≤ y.toBits.toNat ∧
      FromZero y ∧ noiseUnits y = .ok (if Drifts n then n - 1 else n : Nat) := by
  obtain ⟨my, ey, moderate, nearest, base⟩ := moderate_quotient h low counted least
  have finite : (Binary64.nearest false n 1000).toBits.toNat < 2047 * 2 ^ 52 := by
    have short := moderate.canonical.short
    have most := moderate.most
    rw [moderate.bits]
    omega
  obtain ⟨n', counted', whole⟩ := exists_noiseUnits moderate
  obtain ⟨mz, ez, again, -⟩ := id whole
  have recounted := Number.Thousandths.recount h.canonical (counted_noiseUnits h counted) (by omega) nearest again
  refine ⟨Binary64.nearest false n 1000, if_pos ?_, base, finite.le, ?_⟩
  · rw [Binary64.toBits_nearest] at finite
    exact finite
  · rw [counted', whole.unique recounted]

/-! ## 2. The noise of ciphertexts -/

variable {c : Ciphertext Float}

/-- Valid noise that is not huge has a count, which tells whether it reaches the base noise. -/
theorem noiseUnits_of_valid (valid : c.Valid) (bound : c.noise < 1e300) :
    ∃ m e, ∃ n : Nat, Moderate c.noise m e ∧ e < 945 ∧ noiseUnits c.noise = .ok (n : Int) ∧
      (c.noise < baseNoise → n = 3199) ∧ (¬ c.noise < baseNoise → 3200 ≤ n) := by
  have number : c.noise.isNaN = false := by
    by_contra isNaN
    exact Number.not_lt_of_isNaN (by simpa using isNaN) bound
  obtain ⟨noise, -⟩ := noise_above_zero valid number
  have fromZero : FromZero (baseNoise - 1e-9) ∧ FromZero baseNoise ∧ FromZero 1e300 := by decide +kernel
  obtain ⟨least, base, huge⟩ := fromZero
  have low := (Number.le_iff_toBits least noise).1 (least_le_noise valid number)
  rw [Number.lt_iff_toBits noise huge] at bound
  rw [Number.lt_iff_toBits noise base]
  have first : 1023 * 2 ^ 52 ≤ (baseNoise - 1e-9).toBits.toNat := by decide
  have last : (1e300 : Float).toBits.toNat < 2020 * 2 ^ 52 := by decide +kernel
  have order : (baseNoise - 1e-9).toBits.toNat ≤ baseNoise.toBits.toNat := by decide
  have upper : baseNoise.toBits.toNat < 2020 * 2 ^ 52 := by decide
  obtain ⟨m, e, moderate, small⟩ := moderate_of_bits (first.trans low) (bound.trans last)
  obtain ⟨n, counted, -⟩ := exists_noiseUnits moderate
  refine ⟨m, e, n, moderate, small, counted, fun below => ?_, fun above => ?_⟩
  · -- Between the least noise and the greatest below the base noise there is a single count.
    have pred : baseNoise.toBits.toNat = (3.1999999999999997 : Float).toBits.toNat + 1 := by decide
    obtain ⟨ml, el, leastModerate, -⟩ := moderate_of_bits first (order.trans_lt upper)
    obtain ⟨mp, ep, predModerate, -⟩ := moderate_of_bits (x := 3.1999999999999997) (by omega) (by omega)
    have countedLeast : noiseUnits (baseNoise - 1e-9) = .ok 3199 := by rfl
    have countedPred : noiseUnits 3.1999999999999997 = .ok 3199 := by rfl
    have lower : 3199 ≤ n := noiseUnits_mono leastModerate moderate low countedLeast counted
    have upper : n ≤ 3199 := noiseUnits_mono moderate predModerate (by omega) counted countedPred
    omega
  · obtain ⟨mb, eb, baseModerate, -⟩ := moderate_of_bits (first.trans order) upper
    exact noiseUnits_mono (n := 3200) baseModerate moderate (not_lt.1 above) noiseUnits_baseNoise counted

/-! ## 3. Wires -/

variable {t t' : Text}

/-- Are depth and size written with few enough digits? -/
def ShortCounts (c : Ciphertext Float) : Prop :=
  c.depth < Nat.pow 10 Decimal.maxDigits ∧ c.size < Nat.pow 10 Decimal.maxDigits

/-- What the compressed form keeps of a ciphertext, with the noise `y` that its count stands for. -/
def kept (c : Ciphertext Float) (y : Float) : Ciphertext Float :=
  { c with noise := y, bootstrapped := false, relinearized := false }

theorem compress_eq (counted : noiseUnits c.noise = .ok (n : Int)) : compress c = envelope (compressedEntries c n) := by
  unfold compress
  rw [counted]
  rfl

/-- A ciphertext with a count is written in the compressed form if its depth and size are short. -/
theorem exists_compress (counted : noiseUnits c.noise = .ok (n : Int)) (units : n < Nat.pow 10 Decimal.maxDigits)
    (short : ShortCounts c) : ∃ t, compress c = .ok t := by
  obtain ⟨cs, printed⟩ : ∃ cs, Json.print .compact (.dict (compressedEntries c n)) = .ok cs := by
    apply Json.exists_print_dict
    simp only [compressedEntries, List.forall_mem_cons, List.not_mem_nil, false_implies, implies_true, and_true]
    exact ⟨⟨_, rfl⟩, Json.exists_print_natCast units, Json.exists_print_natCast short.1,
      Json.exists_print_natCast short.2⟩
  exact ⟨_, (compress_eq counted).trans (envelope_of_print printed)⟩

/-- It is not written if one of them is too long. -/
theorem compress_of_long (counted : noiseUnits c.noise = .ok (n : Int)) (long : ¬ ShortCounts c) :
    compress c = .error .badValue := by
  have either (k : Nat) : (∃ cs, Json.print .compact (.int k) = .ok cs) ∨
      Json.print .compact (.int k) = .error .numeralTooLong := by
    by_cases short : k < Nat.pow 10 Decimal.maxDigits
    · exact .inl (Json.exists_print_natCast short)
    · exact .inr (Json.print_natCast_of_long short)
  have printed : Json.print .compact (.dict (compressedEntries c n)) = .error .numeralTooLong := by
    apply Json.print_dict_of_long
    · simp only [compressedEntries, List.forall_mem_cons, List.not_mem_nil, false_implies, implies_true, and_true]
      exact ⟨.inl ⟨_, rfl⟩, either _, either _, either _⟩
    · by_cases depth : c.depth < Nat.pow 10 Decimal.maxDigits
      · have size : ¬ c.size < Nat.pow 10 Decimal.maxDigits := fun size => long ⟨depth, size⟩
        exact ⟨("s", .int c.size), by simp [compressedEntries], Json.print_natCast_of_long size⟩
      · exact ⟨("p", .int c.depth), by simp [compressedEntries], Json.print_natCast_of_long depth⟩
  rw [compress_eq counted]
  unfold envelope
  rw [printed]

theorem openText_compress (counted : noiseUnits c.noise = .ok (n : Int)) (h : compress c = .ok t) :
    openText t = .ok (compressedEntries c n) :=
  openText_envelope (readable_compressed c n) (compress_eq counted ▸ h)

/-- What was kept is written as it was exactly if its noise is counted as it was. -/
theorem compress_kept_iff (counted : noiseUnits c.noise = .ok (n : Int)) (counted' : noiseUnits y = .ok (n' : Int))
    (h : compress c = .ok t) (h' : compress (kept c y) = .ok t') : t' = t ↔ n' = n := by
  constructor
  · rintro rfl
    have opened := openText_compress counted h
    rw [openText_compress (c := kept c y) counted' h'] at opened
    have entries : compressedEntries c n' = compressedEntries c n := Except.ok.inj opened
    simp only [compressedEntries, List.cons.injEq, Prod.mk.injEq, Value.int.injEq, true_and, and_true] at entries
    exact Int.ofNat_inj.1 entries
  · rintro rfl
    have same : compress (kept c y) = compress c :=
      (compress_eq (c := kept c y) counted').trans (compress_eq counted).symm
    rw [h, h'] at same
    exact Except.ok.inj same

/-- Noise below the base noise is rounded down to noise that no ciphertext may have. -/
theorem decompress_below_base (size : Ciphertext.freshSize ≤ c.size) (counted : noiseUnits c.noise = .ok 3199)
    (h : compress c = .ok t) :
    decompress (.text t) = .error (refuse .compressed (Ciphertext.Fault.text (.noiseTooLow 3.199))) := by
  have stands : Binary64.quotient? 3199 noiseScale = some 3.199 := by decide
  have low : NoiseArithmetic.less (3.199 : Float) NoiseArithmetic.least = true := by decide
  have found : readRecord .compressed compressedRecord (.text t) = .ok ⟨c.payload, 3199, c.depth, c.size⟩ :=
    readRecord_of_ok (openText_compress (n := 3199) counted h) (compressedRecord_entries size (by decide))
  refine Outcome.bind_eq_error_iff.2 (.inr ⟨_, found, ?_⟩)
  dsimp only
  rw [stands]
  show ((Ciphertext.ofParts c.payload 3.199 c.depth c.size false false).mapError _) = _
  unfold Ciphertext.ofParts
  rw [low]
  rfl

/-! ## 4. Compressed again -/

theorem kept_valid (valid : c.Valid) (fromZero : FromZero y) (base : baseNoise.toBits.toNat ≤ y.toBits.toNat) :
    (kept c y).Valid := by
  have least : FromZero (baseNoise - 1e-9) := by decide
  have order : (baseNoise - 1e-9).toBits.toNat ≤ baseNoise.toBits.toNat := by decide
  refine ⟨decide_eq_false ?_, valid.2⟩
  show ¬ y < baseNoise - 1e-9
  rw [Number.lt_iff_toBits fromZero least]
  omega

/-- The count of moderate noise is written with few enough digits. -/
theorem noiseUnits_short (h : Moderate x m e) (counted : noiseUnits x = .ok (n : Int)) :
    n < Nat.pow 10 Decimal.maxDigits := by
  obtain ⟨mp, ep, nearest, floor, -⟩ := counted_noiseUnits h counted
  exact integral_short nearest.canonical nearest.pos nearest.most floor

/-- Every valid ciphertext whose noise is not huge is written in the compressed form if its depth and size are short.
It is read again if its noise reaches the base noise, and is then written as it was unless the count of its noise
drifts, when the next count is one less. -/
theorem compressed_again (valid : c.Valid) (bound : c.noise < 1e300) :
    ∃ n : Nat, noiseUnits c.noise = .ok (n : Int) ∧ (¬ ShortCounts c → compress c = .error .badValue) ∧
      (ShortCounts c → ∃ t, compress c = .ok t ∧
        (c.noise < baseNoise →
          decompress (.text t) = .error (refuse .compressed (Ciphertext.Fault.text (.noiseTooLow 3.199)))) ∧
        (¬ c.noise < baseNoise → ∃ y t', decompress (.text t) = .ok (kept c y) ∧ compress (kept c y) = .ok t' ∧
          noiseUnits y = .ok (if Drifts n then n - 1 else n : Nat) ∧ (t' = t ↔ ¬ Drifts n))) := by
  obtain ⟨m, e, n, moderate, small, counted, below, reaches⟩ := noiseUnits_of_valid valid bound
  have units := noiseUnits_short moderate counted
  refine ⟨n, counted, compress_of_long counted, fun short => ?_⟩
  obtain ⟨t, written⟩ := exists_compress counted units short
  refine ⟨t, written, fun low => ?_, fun enough => ?_⟩
  · rw [below low] at counted
    exact decompress_below_base valid.2 counted written
  · have reached := reaches enough
    obtain ⟨y, stands, base, fromZero, again⟩ := exists_quotient moderate small counted reached
    have read := decompress_compress counted (Int.natCast_nonneg n) stands (kept_valid valid fromZero base) written
    obtain ⟨t', written'⟩ := exists_compress (c := kept c y) again (by split <;> omega) short
    refine ⟨y, t', read, written', again, ?_⟩
    rw [compress_kept_iff counted again written written']
    split
    case isTrue drift => exact iff_of_false (by omega) (not_not.2 drift)
    case isFalse stays => exact iff_of_true rfl stays

/-- Noise with a count that drifts. -/
def drifting : Ciphertext Float := ⟨[0x2A], 4.0045, 0, 2, false, false⟩

/-- Noise that is valid, but below the base noise. -/
def lowered : Ciphertext Float := ⟨[0x2A], 3.1999999995, 0, 2, false, false⟩

theorem shortCounts_of_lt (depth : c.depth < 10 ^ 4) (size : c.size < 10 ^ 4) : ShortCounts c :=
  ⟨Json.short_of_lt depth, Json.short_of_lt size⟩

theorem compressed_again_drifting : drifting.Valid ∧ drifting.noise < 1e300 ∧ ∃ t y t', compress drifting = .ok t ∧
    decompress (.text t) = .ok (kept drifting y) ∧ compress (kept drifting y) = .ok t' ∧ noiseUnits y = .ok 4003 ∧
    t' ≠ t := by
  have valid : drifting.Valid := by decide
  have bound : drifting.noise < 1e300 := by decide +kernel
  have enough : ¬ drifting.noise < baseNoise := by decide
  obtain ⟨n, counted, -, written⟩ := compressed_again valid bound
  have units : noiseUnits drifting.noise = .ok 4004 := by rfl
  obtain rfl : n = 4004 := by
    rw [units] at counted
    exact (Int.ofNat_inj.1 (Except.ok.inj counted)).symm
  have drift : Drifts 4004 := by decide
  obtain ⟨t, written, -, read⟩ := written (shortCounts_of_lt (by decide) (by decide))
  obtain ⟨y, t', read, written', again, differs⟩ := read enough
  rw [if_pos drift] at again
  exact ⟨valid, bound, t, y, t', written, read, written', again, fun same => differs.1 same drift⟩

/-- The two ways in which the compressed form is not stable: one ciphertext is written differently after it has been
read, and another is not read. -/
theorem compressed_not_stable :
    (drifting.Valid ∧ drifting.noise < 1e300 ∧ ∃ t t', compress drifting = .ok t ∧
      decompress (.text t) = .ok (kept drifting 4.004) ∧ compress (kept drifting 4.004) = .ok t' ∧ t' ≠ t) ∧
    (lowered.Valid ∧ lowered.noise < 1e300 ∧ ∃ t, compress lowered = .ok t ∧
      decompress (.text t) = .error (refuse .compressed "noise_level 3.199 below base noise 3.2")) := by
  constructor
  · have units : noiseUnits drifting.noise = .ok 4004 := by rfl
    have units' : noiseUnits 4.004 = .ok 4003 := by rfl
    have stands : Binary64.quotient? 4004 noiseScale = some 4.004 := by decide
    obtain ⟨t, written⟩ := exists_compress (n := 4004) units (Json.short_of_lt (by decide)) (shortCounts_of_lt (by decide) (by decide))
    obtain ⟨t', written'⟩ := exists_compress (c := kept drifting 4.004) (n := 4003) units' (Json.short_of_lt (by decide))
      (shortCounts_of_lt (by decide) (by decide))
    refine ⟨by decide, by decide +kernel, t, t', written,
      decompress_compress units (by decide) stands (by decide) written, written', ?_⟩
    have differs : t' = t ↔ 4003 = 4004 := compress_kept_iff units units' written written'
    exact mt differs.1 (by decide)
  · have units : noiseUnits lowered.noise = .ok 3199 := by rfl
    have text : Ciphertext.Fault.text (.noiseTooLow 3.199) = "noise_level 3.199 below base noise 3.2" := by
      decide +kernel
    obtain ⟨t, written⟩ := exists_compress (n := 3199) units (Json.short_of_lt (by decide)) (shortCounts_of_lt (by decide) (by decide))
    refine ⟨by decide, by decide +kernel, t, written, ?_⟩
    rw [← text]
    exact decompress_below_base (by decide) units written

end SealedFields.Wire
