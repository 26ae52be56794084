import SealedFields.Key.Wrapper
import SealedFields.Proofs.Number.Bits
import SealedFields.Proofs.Outcome
import SealedFields.Proofs.Schema
import SealedFields.Settings

/-!
# Settings that are accepted

Settings that load are within the bounds of their checks, and if nothing is wrong with the master key, there is none
or it wraps keys. Two settings are not looked at: the scheme and the security level of requests that name none.
-/

namespace SealedFields

namespace Check

variable {es : Entries} {name : Text} {v : Value}

theorem floatAbove_eq_ok {bound x : Float} (h : floatAbove bound v = .ok x) : x > bound := by
  obtain ⟨y, -, h⟩ := Checked.andThen_eq_ok_iff.1 h
  split at h
  case isTrue above =>
    obtain rfl := Checked.ok.inj h
    exact above
  case isFalse => cases h

theorem optional_intFrom {default least i : Int} (h : optional es name default (intFrom least) = .ok i)
    (enough : least ≤ default) : least ≤ i := by
  rcases optional_eq_ok h with rfl | ⟨v, passed⟩
  · exact enough
  · exact intFrom_eq_ok passed

theorem optional_floatAbove {default bound x : Float} (h : optional es name default (floatAbove bound) = .ok x)
    (above : default > bound) : x > bound := by
  rcases optional_eq_ok h with rfl | ⟨v, passed⟩
  · exact above
  · exact floatAbove_eq_ok passed

end Check

namespace Settings

variable {environment arguments : Entries} {s : Settings}

/-- The bounds that a service relies on. -/
structure InBounds (s : Settings) : Prop where
  workers : 1 ≤ s.workerPoolSize
  keyTtl : s.keyCacheTtlSeconds > 0.0
  bootstrapTtl : s.bootstrapKeyCacheTtlSeconds > 0.0
  startTries : 0 ≤ s.initMaxRetries
  custodyTries : 0 ≤ s.custodianMaxRetries

theorem inBounds_of_check {es : Entries} (h : check es = .ok s) : s.InBounds := by
  obtain ⟨_, masterKey, before₁, -, rfl⟩ := Checked.seq_eq_ok_iff.1 h
  obtain ⟨_, custodyTries, before₂, custody, rfl⟩ := Checked.seq_eq_ok_iff.1 before₁
  obtain ⟨_, baseDelay, before₃, -, rfl⟩ := Checked.seq_eq_ok_iff.1 before₂
  obtain ⟨_, startTries, before₄, start, rfl⟩ := Checked.seq_eq_ok_iff.1 before₃
  obtain ⟨_, circuitDepth, before₅, -, rfl⟩ := Checked.seq_eq_ok_iff.1 before₄
  obtain ⟨_, bootstrapTtl, before₆, bootstrap, rfl⟩ := Checked.seq_eq_ok_iff.1 before₅
  obtain ⟨_, keyTtl, before₇, key, rfl⟩ := Checked.seq_eq_ok_iff.1 before₆
  obtain ⟨_, batchTimeout, before₈, -, rfl⟩ := Checked.seq_eq_ok_iff.1 before₇
  obtain ⟨_, batchSize, before₉, -, rfl⟩ := Checked.seq_eq_ok_iff.1 before₈
  obtain ⟨_, workers, before₁₀, pool, rfl⟩ := Checked.seq_eq_ok_iff.1 before₉
  obtain ⟨_, level, before₁₁, -, rfl⟩ := Checked.seq_eq_ok_iff.1 before₁₀
  obtain ⟨_, scheme, before₁₂, -, rfl⟩ := Checked.seq_eq_ok_iff.1 before₁₁
  obtain ⟨_, logLevel, before₁₃, -, rfl⟩ := Checked.seq_eq_ok_iff.1 before₁₂
  obtain ⟨environment, -, rfl⟩ := Checked.map_eq_ok_iff.1 before₁₃
  exact ⟨Check.optional_intFrom pool (by decide), Check.optional_floatAbove key (by decide +kernel),
    Check.optional_floatAbove bootstrap (by decide +kernel), Check.optional_intFrom start (by decide),
    Check.optional_intFrom custody (by decide)⟩

theorem inBounds_of_load (loaded : load environment arguments = .ok s) : s.InBounds := by
  obtain ⟨-, -, checked⟩ := Outcome.bind_eq_ok_iff.1 loaded
  exact inBounds_of_check (Checked.toExcept_eq_ok_iff.1 checked)

/-- If nothing is wrong with the settings, there is no master key, or one of the right size. -/
theorem masterKey_of_clean (clean : s.issues = []) :
    s.masterKey = .ok none ∨ ∃ w : KeyWrapper, s.masterKey = .ok (some w.masterKey) := by
  obtain ⟨-, none⟩ := List.append_eq_nil_iff.1 clean
  unfold masterKeyIssues at none
  split at none
  case h_1 absent => exact .inl absent
  case h_2 key set =>
    split at none
    case isTrue size => exact .inr ⟨⟨key, size⟩, set⟩
    case isFalse => cases none
  case h_3 => cases none

end Settings

end SealedFields
