import SealedFields.Proofs.Ciphertext.Boundaries
import SealedFields.Proofs.Engine.Budget

/-!
# What is made of accepted wires

A wire is accepted with the account it says, and only if its noise really is at least the least noise; NaN
is not. Whatever is then computed under registered parameters has noise that is within the limit, or else is
known to be exhausted.
-/

namespace SealedFields

namespace Wire

variable {v : Value} {c : Ciphertext Float}

/-! ## 1. Accepted wires -/

/-- The account that a serialized record must have to be accepted. -/
structure Record.Accepted (r : Record) : Prop where
  noise : baseNoise - 1e-9 ≤ r.noise
  depth : 0 ≤ r.depth
  size : (Ciphertext.freshSize : Int) ≤ r.size

theorem serializedRecord_eq_ok {es : Entries} {r : Record} (h : serializedRecord es = .ok r) : r.Accepted := by
  obtain ⟨_, _, h, -, withFlag⟩ := Checked.seq_eq_ok_iff.1 h
  obtain ⟨_, _, h, size, withSize⟩ := Checked.seq_eq_ok_iff.1 h
  obtain ⟨_, _, h, depth, withDepth⟩ := Checked.seq_eq_ok_iff.1 h
  obtain ⟨_, _, h, noise, withNoise⟩ := Checked.seq_eq_ok_iff.1 h
  obtain ⟨_, -, withPayload⟩ := Checked.map_eq_ok_iff.1 h
  obtain ⟨_, -, noise⟩ := Check.required_eq_ok noise
  obtain ⟨_, -, depth⟩ := Check.required_eq_ok depth
  obtain ⟨_, -, size⟩ := Check.required_eq_ok size
  rw [withFlag, withSize, withDepth, withNoise, withPayload]
  exact ⟨Check.floatFrom_eq_ok noise, Check.intFrom_eq_ok depth, Check.intFrom_eq_ok size⟩

/-- The ciphertext has the account of the record. -/
structure Record.Describes (r : Record) (c : Ciphertext Float) : Prop where
  payload : c.payload = r.payload
  noise : c.noise = r.noise
  depth : (c.depth : Int) = r.depth
  size : (c.size : Int) = r.size
  bootstrapped : c.bootstrapped = r.bootstrapped

theorem Record.describes_of_ciphertext {f : Format} {r : Record} (accepted : r.Accepted)
    (h : r.ciphertext f = .ok c) : r.Describes c := by
  have h := Outcome.mapError_eq_ok_iff.1 h
  unfold Ciphertext.ofParts at h
  split at h
  case isTrue => cases h
  case isFalse =>
    rw [if_neg (Int.not_lt.2 accepted.depth)] at h
    obtain ⟨-, rfl⟩ := Ciphertext.checked_eq_ok_iff.1 h
    have size := accepted.size
    exact ⟨rfl, rfl, Int.toNat_of_nonneg accepted.depth, Int.toNat_of_nonneg (by omega), rfl⟩

/-- What is read from the serialized form is described by an accepted record. -/
theorem deserialize_eq_ok (h : deserialize v = .ok c) :
    ∃ r, readRecord .serialized serializedRecord v = .ok r ∧ r.Accepted ∧ r.Describes c := by
  obtain ⟨r, read, h⟩ := Outcome.bind_eq_ok_iff.1 h
  obtain ⟨es, -, passed⟩ := readRecord_eq_ok read
  have accepted := serializedRecord_eq_ok passed
  exact ⟨r, read, accepted, Record.describes_of_ciphertext accepted h⟩

theorem noisy_of_deserialize (h : deserialize v = .ok c) : c.Noisy := by
  obtain ⟨r, -, accepted, describes⟩ := deserialize_eq_ok h
  unfold Ciphertext.Noisy
  rw [describes.noise]
  exact leastNoise_atLeast.of_le (by decide) accepted.noise

end Wire

/-! ## 2. What is computed from them -/

/-- Accepted wires, and what engines with registered parameters make of them. -/
inductive Obtained : Ciphertext Float → Prop
  | wire {v : Value} {c : Ciphertext Float} (h : Wire.deserialize v = .ok c) : Obtained c
  | evaluated {s : Scheme} {operation : Text} {inputs : List (Ciphertext Float)} {amount : Int}
      {autoBootstrap : Bool} {key : Option BootstrappingKey} {ev : Evaluation Float}
      (inputs_obtained : ∀ a ∈ inputs, Obtained a)
      (h : (Parameters.registered s).engine.evaluateNamed operation inputs amount autoBootstrap key = .ok ev) :
      Obtained ev.ciphertext

theorem Engine.Preserves.evaluateNamed {ν : Type} [NoiseArithmetic ν] {e : Engine ν} {P : Ciphertext ν → Prop}
    (preserves : e.Preserves P) {operation : Text} {inputs : List (Ciphertext ν)} {amount : Int}
    {autoBootstrap : Bool} {key : Option BootstrappingKey} {ev : Evaluation ν} (all : ∀ a ∈ inputs, P a)
    (h : e.evaluateNamed operation inputs amount autoBootstrap key = .ok ev) : P ev.ciphertext := by
  unfold Engine.evaluateNamed at h
  split at h
  case h_1 => exact preserves.evaluate all h
  case h_2 => cases h

theorem Obtained.noisy {c : Ciphertext Float} (h : Obtained c) : c.Noisy := by
  induction h with
  | wire h => exact Wire.noisy_of_deserialize h
  | @evaluated s _ _ _ _ _ _ _ h ih => exact (Engine.preserves_noisy (growing_registered s)).evaluateNamed ih h

/-- An accepted wire has the depth and the size it says, neither too low, and noise that compares as not below
the least noise. What is obtained from accepted wires never has noise beyond the limit that goes unnoticed. -/
theorem accepted_within_budget :
    (∀ v c, Wire.deserialize v = .ok c → ∃ r, Wire.readRecord .serialized Wire.serializedRecord v = .ok r ∧
        (0 ≤ r.depth ∧ (c.depth : Int) = r.depth) ∧ (2 ≤ r.size ∧ (c.size : Int) = r.size) ∧
        c.noise = r.noise ∧ c.noise ≥ baseNoise - 1e-9) ∧
      ∀ c, Obtained c → c.noise ≤ maxNoise ∨ c.isExhausted = true := by
  refine ⟨fun v c h => ?_, fun c h => h.noisy.noise_le_or_isExhausted⟩
  obtain ⟨r, read, accepted, describes⟩ := Wire.deserialize_eq_ok h
  refine ⟨r, read, ⟨accepted.depth, describes.depth⟩, ⟨accepted.size, describes.size⟩, describes.noise, ?_⟩
  rw [describes.noise]
  exact accepted.noise

/-- A record with one byte of payload, the base noise, depth two and size two. -/
def acceptedWire : Value := .text "eyJkYXRhIjoiMDEiLCJub2lzZSI6My4yLCJkZXB0aCI6Miwic2l6ZSI6Mn0="

/-- The wire and its square. -/
theorem accepted_within_budget_square : ∃ c ev, Wire.deserialize acceptedWire = .ok c ∧
    (Parameters.registered .tfhe).engine.evaluateNamed "multiply" [c, c] 1 false none = .ok ev ∧
      c.noise ≥ baseNoise - 1e-9 ∧ (ev.ciphertext.noise ≤ maxNoise ∨ ev.ciphertext.isExhausted = true) := by
  have computed : ((Wire.deserialize acceptedWire).toOption.bind fun c =>
      ((Parameters.registered .tfhe).engine.evaluateNamed "multiply" [c, c] 1 false none).toOption).isSome
        = true := by decide +kernel
  obtain ⟨ev, computed⟩ := Option.isSome_iff_exists.1 computed
  obtain ⟨c, read, evaluated⟩ := Option.bind_eq_some_iff.1 computed
  have read := Outcome.toOption_eq_some_iff.1 read
  have evaluated := Outcome.toOption_eq_some_iff.1 evaluated
  obtain ⟨wires, obtained⟩ := accepted_within_budget
  obtain ⟨_, -, -, -, -, noise⟩ := wires acceptedWire c read
  have inputs : ∀ a ∈ [c, c], Obtained a := by simpa using Obtained.wire read
  exact ⟨c, ev, read, evaluated, noise, obtained _ (.evaluated inputs evaluated)⟩

end SealedFields
