import SealedFields.Proofs.Ciphertext.Wire
import SealedFields.Proofs.Json.Floats
import SealedFields.Proofs.Number.Bits

/-!
# The serialized form keeps ciphertexts

Every ciphertext is read from its serialized form as it was, but for the relinearization flag, which is not
written. Noise that is a whole number is written as an integer, and is the float nearest to that integer.
-/

namespace SealedFields

open Number (FromZero Binary64)

/-! ## 1. Printing -/

namespace Json

variable {l : Layout} {es : Entries}

/-- A record is printed if all its values are. -/
theorem exists_print_dict (each : ∀ e ∈ es, ∃ cs, print l e.2 = .ok cs) : ∃ cs, print l (.dict es) = .ok cs := by
  have entries : ∃ parts, printEntries l es = .ok parts := by
    induction es with
    | nil => exact ⟨[], rfl⟩
    | cons e es ih =>
      obtain ⟨first, more⟩ := List.forall_mem_cons.1 each
      obtain ⟨part, printed⟩ := first
      obtain ⟨parts, others⟩ := ih more
      refine ⟨(stringText e.1 ++ l.keySeparator ++ part) :: parts, ?_⟩
      rw [printEntries, printed, others]
      rfl
  obtain ⟨parts, printed⟩ := entries
  refine ⟨'\x7b' :: separated l.itemSeparator parts ++ ['\x7d'], ?_⟩
  rw [print, printed]
  rfl

/-- A record that has too long a numeral, and nothing else that fails, fails for it. -/
theorem print_dict_of_long (each : ∀ e ∈ es, (∃ cs, print l e.2 = .ok cs) ∨ print l e.2 = .error .numeralTooLong)
    (long : ∃ e ∈ es, print l e.2 = .error .numeralTooLong) : print l (.dict es) = .error .numeralTooLong := by
  have entries : printEntries l es = .error .numeralTooLong := by
    induction es with
    | nil =>
      obtain ⟨e, member, -⟩ := long
      cases member
    | cons e es ih =>
      obtain ⟨first, more⟩ := List.forall_mem_cons.1 each
      rw [List.exists_mem_cons_iff] at long
      rw [printEntries]
      rcases first with ⟨part, printed⟩ | failed
      · have later : ∃ e ∈ es, print l e.2 = .error .numeralTooLong := by
          refine long.resolve_left fun failed => ?_
          rw [printed] at failed
          cases failed
        rw [printed, ih more later]
        rfl
      · rw [failed]
        rfl
  rw [print, entries]
  rfl

theorem print_natCast_of_long {n : Nat} (long : ¬ n < Nat.pow 10 Decimal.maxDigits) :
    print l (.int n) = .error .numeralTooLong := by
  have none : Decimal.ofInt? n = none := if_neg long
  rw [print, none]

theorem short_of_lt {n : Nat} (few : n < 10 ^ 4) : n < Nat.pow 10 Decimal.maxDigits := by
  have limit : Decimal.maxDigits = 4300 := by unfold Decimal.maxDigits; rfl
  exact few.trans_le (Nat.pow_le_pow_right (by decide) (by omega))

theorem exists_print_natCast {n : Nat} (short : n < Nat.pow 10 Decimal.maxDigits) :
    ∃ cs, print l (.int n) = .ok cs := by
  have printed : Decimal.ofInt? n = some (Decimal.ofInt n) := if_pos short
  refine ⟨Decimal.ofInt n, ?_⟩
  rw [print, printed]

end Json

/-! ## 2. Numbers in a record -/

namespace Wire

variable {x least : Float} {m : Nat} {e : Int}

/-- A whole number is written as the integer that it is. -/
theorem number_of_integral (hx : Binary64.ofFloat x = .finite false m e)
    (integral : (Binary64.ofFloat x).isIntegral = true) : ∃ n : Nat, number x = .int n ∧ (n : ℚ) = m * 2 ^ e := by
  rw [hx] at integral
  have divides : m * (Binary64.powerOfTwo e).1 % (Binary64.powerOfTwo e).2 = 0 := of_decide_eq_true integral
  have unit : ((Binary64.powerOfTwo e).2 : ℚ) ≠ 0 := by exact_mod_cast (Binary64.powerOfTwo_pos e).2.ne'
  refine ⟨m * (Binary64.powerOfTwo e).1 / (Binary64.powerOfTwo e).2, ?_, ?_⟩
  · unfold number
    rw [hx]
    simp only [integral]
    rfl
  · rw [Nat.cast_div (Nat.dvd_of_mod_eq_zero divides) unit, Nat.cast_mul, Binary64.powerOfTwo_eq]
    field_simp

/-- Any other number is written as a float. -/
theorem number_of_fractional (h : (Binary64.ofFloat x).isIntegral = false) : number x = .float x := by
  simp only [number, h]

/-- A whole number that is not greater than a float has few enough digits. -/
theorem integral_short {n : Nat} (canonical : Number.Canonical m e) (pos : 0 < m) (most : e < 972)
    (le : (n : ℚ) ≤ m * 2 ^ e) : n < Nat.pow 10 Decimal.maxDigits := by
  have limit : Decimal.maxDigits = 4300 := by unfold Decimal.maxDigits; rfl
  have below := ((Binary64.rounds_self m e).range canonical pos most).2
  have digits := Number.log2_lt_of_lt (by decide) (le.trans_lt below)
  calc n < 2 ^ (n.log2 + 1) := Nat.lt_log2_self
    _ ≤ 10 ^ (n.log2 + 1) := Nat.pow_le_pow_left (by decide) _
    _ ≤ 10 ^ Decimal.maxDigits := Nat.pow_le_pow_right (by decide) (by omega)

/-- Noise above zero is written, and read as it was. -/
theorem float_number (hx : FromZero x) (positive : 0 < x.toBits.toNat) : Check.float (number x) = .ok x ∧
    Json.Readable (number x) ∧ ∃ cs, Json.print .compact (number x) = .ok cs := by
  cases integral : (Binary64.ofFloat x).isIntegral with
  | false =>
    rw [number_of_fractional integral]
    exact ⟨rfl, .float x (Json.reads_floatText x), _, rfl⟩
  | true =>
    rcases hx.cases positive with infinite | ⟨m, e, finite, pos⟩
    · rw [infinite] at integral
      cases integral
    · obtain ⟨n, written, same⟩ := number_of_integral finite integral
      obtain ⟨-, canonical, most⟩ := Number.ofBits_eq_finite x.toBits.toBitVec.isLt finite
      rw [written]
      refine ⟨?_, .int n, Json.exists_print_natCast (integral_short canonical pos most same.le)⟩
      -- The float nearest to the integer is the one that it was written for.
      have rounds : Binary64.Rounds m e n := by
        rw [same]
        exact Binary64.rounds_self m e
      have value : (n : ℚ) = n * (1 : Nat) := by rw [Nat.cast_one, mul_one]
      have bits := Binary64.nearestBits_of_rounds value one_ne_zero canonical pos rounds
      have nearest : Binary64.nearest false n 1 = x := Number.nearest_of_rounds finite pos one_ne_zero value rounds
      have short := canonical.short
      have fits : Binary64.nearestBits n 1 < 2047 * Nat.pow 2 52 := by
        have power : Nat.pow 2 52 = 2 ^ 52 := rfl
        rw [power]
        omega
      have found : Binary64.ofInt? n = some x := by
        rw [← nearest]
        exact if_pos fits
      show Checked.ofOption? (Binary64.ofInt? n) = _
      rw [found]
      rfl

/-! ## 3. The round trip -/

variable {c : Ciphertext Float}

/-- A ciphertext has enough noise unless its noise is NaN. -/
theorem least_le_noise (valid : c.Valid) (number : c.noise.isNaN = false) : c.noise ≥ baseNoise - 1e-9 := by
  have bound : (baseNoise - 1e-9).isNaN = false := by decide
  have enough : ¬ c.noise < baseNoise - 1e-9 := of_decide_eq_false valid.1
  exact (Number.le_or_lt bound number).resolve_right enough

theorem noise_above_zero (valid : c.Valid) (number : c.noise.isNaN = false) :
    FromZero c.noise ∧ 0 < c.noise.toBits.toNat := by
  have bound : FromZero (baseNoise - 1e-9) := by decide
  have positive : 0 < (baseNoise - 1e-9).toBits.toNat := by decide
  have enough := least_le_noise valid number
  have noise := bound.of_le positive enough
  exact ⟨noise, positive.trans_le ((Number.le_iff_toBits bound noise).1 enough)⟩

theorem envelope_of_print {es : Entries} {cs : List Char} (printed : Json.print .compact (.dict es) = .ok cs) :
    envelope es = .ok (Text.ofChars (Base64.encode (Utf8.encode cs))) := by
  unfold envelope
  rw [printed]

theorem exists_serialize (valid : c.Valid) (number : c.noise.isNaN = false)
    (depth : c.depth < Nat.pow 10 Decimal.maxDigits) (size : c.size < Nat.pow 10 Decimal.maxDigits) :
    ∃ t, serialize c = .ok t := by
  obtain ⟨fromZero, positive⟩ := noise_above_zero valid number
  obtain ⟨cs, printed⟩ : ∃ cs, Json.print .compact (.dict (serializedEntries c)) = .ok cs := by
    apply Json.exists_print_dict
    simp only [serializedEntries, List.forall_mem_cons, List.not_mem_nil, false_implies, implies_true, and_true]
    refine ⟨⟨_, rfl⟩, (float_number fromZero positive).2.2, Json.exists_print_natCast depth,
      Json.exists_print_natCast size, ?_⟩
    cases c.bootstrapped <;> exact ⟨_, rfl⟩
  exact ⟨_, envelope_of_print printed⟩

/-- What was serialized is read as the ciphertext, without its relinearization flag. -/
theorem deserialize_of_serialize {t : Text} (valid : c.Valid) (number : c.noise.isNaN = false)
    (h : serialize c = .ok t) : deserialize (.text t) = .ok { c with relinearized := false } := by
  obtain ⟨fromZero, positive⟩ := noise_above_zero valid number
  obtain ⟨read, readable, -⟩ := float_number fromZero positive
  apply deserialize_serialize valid readable _ h
  unfold Check.floatFrom
  rw [read]
  exact if_pos (least_le_noise valid number)

/-- Ciphertexts whose noise is a number and whose counts can be written survive the serialized form; what was
serialized is serialized as it was after it has been read. -/
theorem serialized_round_trip :
    (∀ c : Ciphertext Float, c.Valid → c.noise.isNaN = false → c.depth < Nat.pow 10 Decimal.maxDigits →
      c.size < Nat.pow 10 Decimal.maxDigits →
      ∃ t, serialize c = .ok t ∧ deserialize (.text t) = .ok { c with relinearized := false }) ∧
    ∀ t, (∃ c : Ciphertext Float, c.Valid ∧ c.noise.isNaN = false ∧ serialize c = .ok t) →
      ∃ d, deserialize (.text t) = .ok d ∧ serialize d = .ok t := by
  constructor
  · intro c valid number depth size
    obtain ⟨t, written⟩ := exists_serialize valid number depth size
    exact ⟨t, written, deserialize_of_serialize valid number written⟩
  · rintro t ⟨c, valid, number, written⟩
    exact ⟨_, deserialize_of_serialize valid number written, written⟩

/-- A ciphertext that was multiplied and refreshed. -/
def refreshed : Ciphertext Float := ⟨[0xAB, 0xCD], 27.3, 4, 3, true, true⟩

theorem serialized_round_trip_refreshed : refreshed.Valid ∧ refreshed.noise.isNaN = false ∧
    ∃ t, serialize refreshed = .ok t ∧ deserialize (.text t) = .ok { refreshed with relinearized := false } ∧
      ∃ d, deserialize (.text t) = .ok d ∧ serialize d = .ok t := by
  have valid : refreshed.Valid := by decide
  have number : refreshed.noise.isNaN = false := by decide
  obtain ⟨t, written, read⟩ := serialized_round_trip.1 refreshed valid number (Json.short_of_lt (by decide))
    (Json.short_of_lt (by decide))
  exact ⟨valid, number, t, written, read, serialized_round_trip.2 t ⟨refreshed, valid, number, written⟩⟩

end Wire

end SealedFields
