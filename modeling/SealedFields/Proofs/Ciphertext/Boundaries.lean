import SealedFields.Ciphertext.Packing
import SealedFields.Ciphertext.Wire
import SealedFields.Proofs.Number.Quotient
import SealedFields.Proofs.Outcome
import SealedFields.Proofs.Schema

/-!
# What the boundaries refuse

Wires and packed buffers come from outside. Whatever is in them, reading the serialized form and unpacking
fail only with a report of the format. The compressed form has one more way to fail: noise in units that no
float can hold overflows on its way to a ciphertext.
-/

namespace SealedFields

open Outcome (FailsOnly)

/-! ## 1. Wires -/

namespace Wire

open Checked (Completes)

variable {α : Type} {f : Format} {v : Value}

theorem completes_checkHex (v : Value) : Completes (checkHex v) :=
  (Check.completes_text v).andThen fun _ => Checked.completes_ofOption? _

theorem completes_serializedRecord (es : Entries) : Completes (serializedRecord es) :=
  (((((Check.completes_required completes_checkHex es "data").map Record.mk).seq
    (Check.completes_required (Check.completes_floatFrom _) es "noise")).seq
    (Check.completes_required (Check.completes_intFrom _) es "depth")).seq
    (Check.completes_required (Check.completes_intFrom _) es "size")).seq
    (Check.completes_optional Check.completes_bool es "bootstrapped" false)

theorem completes_compressedRecord (es : Entries) : Completes (compressedRecord es) :=
  ((((Check.completes_required completes_checkHex es "d").map CompressedRecord.mk).seq
    (Check.completes_required (Check.completes_intFrom _) es "n")).seq
    (Check.completes_required (Check.completes_intFrom _) es "p")).seq
    (Check.completes_required (Check.completes_intFrom _) es "s")

/-- A report that the wire is malformed. -/
def Refusal (f : Format) (failure : Failure) : Prop := ∃ reason, failure = refuse f reason

theorem Refusal.ne_overflow {failure : Failure} (h : Refusal f failure) : failure ≠ .overflow := by
  obtain ⟨reason, rfl⟩ := h
  exact nofun

theorem failsOnly_readRecord {check : Entries → Checked α} (completes : ∀ es, Completes (check es)) :
    FailsOnly (Refusal f) (readRecord f check v) := by
  intro failure h
  unfold readRecord at h
  split at h
  case h_1 reason _ => exact ⟨reason, (Except.error.inj h).symm⟩
  case h_2 es _ =>
    split at h
    case h_1 => cases h
    case h_2 places _ => exact ⟨_, (Except.error.inj h).symm⟩
    case h_3 e stopped => exact absurd stopped (completes es e)

theorem failsOnly_ciphertext (r : Record) : FailsOnly (Refusal f) (r.ciphertext f) := by
  intro failure h
  obtain ⟨fault, -, rfl⟩ := Outcome.mapError_eq_error_iff.1 h
  exact ⟨_, rfl⟩

theorem failsOnly_deserialize (v : Value) : FailsOnly (Refusal .serialized) (deserialize v) :=
  (failsOnly_readRecord completes_serializedRecord).bind failsOnly_ciphertext

/-- The units that a compressed record counts are not negative. -/
theorem compressedRecord_eq_ok {es : Entries} {r : CompressedRecord} (h : compressedRecord es = .ok r) :
    0 ≤ r.units := by
  obtain ⟨_, _, h, -, withSize⟩ := Checked.seq_eq_ok_iff.1 h
  obtain ⟨_, _, h, -, withDepth⟩ := Checked.seq_eq_ok_iff.1 h
  obtain ⟨_, _, h, counted, withUnits⟩ := Checked.seq_eq_ok_iff.1 h
  obtain ⟨_, -, withPayload⟩ := Checked.map_eq_ok_iff.1 h
  obtain ⟨_, -, counted⟩ := Check.required_eq_ok counted
  rw [withSize, withDepth, withUnits, withPayload]
  exact Check.intFrom_eq_ok counted

theorem readRecord_eq_ok {check : Entries → Checked α} {a : α} (h : readRecord f check v = .ok a) :
    ∃ es, openEnvelope v = .ok es ∧ check es = .ok a := by
  unfold readRecord at h
  split at h
  case h_1 => cases h
  case h_2 es opened =>
    split at h
    case h_1 b passed =>
      obtain rfl := Except.ok.inj h
      exact ⟨es, opened, passed⟩
    case h_2 => cases h
    case h_3 => cases h

/-- No float holds the noise of a record from a thousandfold of the bound on. -/
theorem quotient?_units_eq_none_iff {r : CompressedRecord}
    (h : readRecord .compressed compressedRecord v = .ok r) :
    Number.Binary64.quotient? r.units noiseScale = none ↔
      (Number.Binary64.overflowBound : Int) * noiseScale ≤ r.units := by
  obtain ⟨es, -, passed⟩ := readRecord_eq_ok h
  have nonneg := compressedRecord_eq_ok passed
  have scale : (noiseScale : Int).natAbs = noiseScale := rfl
  rw [Number.Binary64.quotient?_eq_none_iff (by decide), scale]
  generalize Number.Binary64.overflowBound = bound
  rw [← Int.natCast_mul]
  omega

theorem failsOnly_decompress (v : Value) :
    FailsOnly (fun failure => Refusal .compressed failure ∨ failure = .overflow) (decompress v) := by
  intro failure h
  rcases Outcome.bind_eq_error_iff.1 h with unread | ⟨r, -, h⟩
  · exact .inl (failsOnly_readRecord completes_compressedRecord failure unread)
  · split at h
    case h_1 => exact .inr (Except.error.inj h).symm
    case h_2 noise _ => exact .inl (failsOnly_ciphertext _ failure h)

/-- The compressed form overflows exactly if no float holds the noise of its record. -/
theorem decompress_eq_overflow_iff : decompress v = .error .overflow ↔
    ∃ r, readRecord .compressed compressedRecord v = .ok r ∧
      (Number.Binary64.overflowBound : Int) * noiseScale ≤ r.units := by
  constructor
  · intro h
    rcases Outcome.bind_eq_error_iff.1 h with unread | ⟨r, read, h⟩
    · exact absurd rfl (failsOnly_readRecord completes_compressedRecord _ unread).ne_overflow
    · refine ⟨r, read, (quotient?_units_eq_none_iff read).1 ?_⟩
      split at h
      case h_1 none => exact none
      case h_2 => exact absurd rfl (failsOnly_ciphertext _ _ h).ne_overflow
  · rintro ⟨r, read, large⟩
    have none := (quotient?_units_eq_none_iff read).2 large
    refine Outcome.bind_eq_error_iff.2 (.inr ⟨r, read, ?_⟩)
    rw [none]

end Wire

/-! ## 2. Packed buffers -/

namespace Packing

/-- A report that the packed buffer is malformed. -/
def Refusal (e : FieldError) : Prop := ∃ reason, e = .malformedCiphertext reason (some "packed")

theorem failsOnly_unpackFrom (offset : Nat) (rest : Bytes) : FailsOnly Refusal (unpackFrom offset rest) := by
  -- Induction on the records: one that is whole leaves its failures to what follows.
  induction offset, rest using unpackFrom.induct with
  | case1 offset rest done =>
    rw [unpackFrom, if_pos done]
    exact .ok []
  | case2 offset rest more short =>
    rw [unpackFrom, if_neg more, dif_pos short]
    intro e h
    exact ⟨_, (Except.error.inj h).symm⟩
  | case3 offset rest more long declared body cut =>
    rw [unpackFrom, if_neg more, dif_neg long, if_pos cut]
    intro e h
    exact ⟨_, (Except.error.inj h).symm⟩
  | case4 offset rest more long declared body whole ih =>
    rw [unpackFrom, if_neg more, dif_neg long, if_neg whole]
    exact ih.bind fun values => .ok _

theorem failsOnly_unpack (packed : Bytes) : FailsOnly Refusal (unpack packed) := failsOnly_unpackFrom 0 packed

end Packing

/-! ## 3. All boundaries -/

namespace Wire

/-- Reading and unpacking fail with a report of the format and in no other way, but for the compressed
form: it overflows exactly where no float holds the noise that its record counts. -/
theorem boundaries_refuse (v : Value) (packed : Bytes) :
    FailsOnly (Refusal .serialized) (deserialize v) ∧ FailsOnly Packing.Refusal (Packing.unpack packed) ∧
      FailsOnly (fun failure => Refusal .compressed failure ∨ failure = .overflow) (decompress v) ∧
      (decompress v = .error .overflow ↔ ∃ r, readRecord .compressed compressedRecord v = .ok r ∧
        (Number.Binary64.overflowBound : Int) * noiseScale ≤ r.units) :=
  ⟨failsOnly_deserialize v, Packing.failsOnly_unpack packed, failsOnly_decompress v, decompress_eq_overflow_iff⟩

def isOverflow {α : Type} : Except Failure α → Bool
  | .error (.raised .overflow []) => true
  | _ => false

theorem isOverflow_iff {α : Type} {x : Except Failure α} : isOverflow x = true ↔ x = .error .overflow := by
  constructor
  · intro h
    unfold isOverflow at h
    split at h
    case h_1 => rfl
    case h_2 => cases h
  · rintro rfl
    rfl

instance {α : Type} (x : Except Failure α) : Decidable (x = .error .overflow) :=
  decidable_of_iff _ isOverflow_iff

/-- A compressed record without payload that counts 2 · 10^311 units of noise. -/
def overflowingWire : Text :=
  "eyJkIjoiIiwibiI6MjAw" ++ (List.replicate 103 ("MDAw" : Text)).flatten ++ "LCJwIjowLCJzIjoyfQ=="

/-- The wire is neither read nor refused. -/
theorem decompress_overflowingWire : decompress (.text overflowingWire) = .error .overflow ∧
    ¬ FailsOnly (Refusal .compressed) (decompress (.text overflowingWire)) := by
  have overflow : decompress (.text overflowingWire) = .error .overflow := by decide +kernel
  exact ⟨overflow, fun refuses => (refuses _ overflow).ne_overflow rfl⟩

end Wire

end SealedFields
