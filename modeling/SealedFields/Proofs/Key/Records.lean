import SealedFields.Key.Custody
import SealedFields.Proofs.Digest.Shake256
import SealedFields.Proofs.Entries
import SealedFields.Proofs.Outcome

/-!
# Keys in custody and back

A record that was made of keys opens to the same keys, and keys are made with failures of their own: a
missing key is never the answer of whoever makes one.
-/

namespace SealedFields

/-- A failure because there are no keys. -/
def Failure.IsKeyMissing (f : Failure) : Prop :=
  ∃ identity scheme keyType, f = .field (.keyNotFound identity scheme keyType)

theorem Failure.not_isKeyMissing_raised {kind : FailureKind} {text : Text} :
    ¬ (raised kind text).IsKeyMissing := by
  rintro ⟨_, _, _, h⟩
  cases h

/-- Why a failure cannot be told is never that there are no keys. -/
theorem Failure.not_isKeyMissing_of_told {f g : Failure} (h : f.told = .error g) : ¬ g.IsKeyMissing := by
  unfold told at h
  split at h
  case h_8 =>
    obtain rfl := Except.error.inj h
    exact not_isKeyMissing_raised
  all_goals cases h

/-- Every draw has the length that was asked for. -/
def Entropy.Exact (e : Entropy) : Prop := ∀ k n, (e.source k n).length = n

theorem Entropy.exact_reproducible : Entropy.reproducible.Exact := fun _ n => Shake256.length_digest _ n

/-! ## 1. Sources of keys -/

/-- Engines that belong to their schemes, and that never lack keys. -/
structure KeySource.Faithful (k : KeySource) : Prop where
  scheme_eq : ∀ {scheme p}, k.engine scheme = .ok p → p.scheme = scheme
  engine_failure : ∀ {scheme f}, k.engine scheme = .error f → ¬ f.IsKeyMissing
  broken_failure : ∀ {f}, k.broken = some f → ¬ f.IsKeyMissing

namespace KeySource

theorem faithful_standard : standard.Faithful where
  scheme_eq {scheme p} h := by
    obtain rfl := Except.ok.inj h
    cases scheme <;> rfl
  engine_failure h := by cases h
  broken_failure h := by cases h

variable {k : KeySource} {scheme : Scheme} {entropy entropy' : Entropy}

theorem Faithful.scheme_of_generate (faithful : k.Faithful) {keys : KeyPair}
    (h : k.generate scheme entropy = (.ok keys, entropy')) : keys.scheme = scheme := by
  unfold generate at h
  split at h
  case h_3 => split at h <;> cases h
  case h_4 p engine _ =>
    obtain ⟨hk, -⟩ := Prod.mk.inj h
    obtain rfl := Except.ok.inj hk
    exact faithful.scheme_eq engine
  all_goals cases h

theorem Faithful.failure_of_generate (faithful : k.Faithful) {f : Failure}
    (h : k.generate scheme entropy = (.error f, entropy')) : ¬ f.IsKeyMissing := by
  unfold generate at h
  split at h
  case h_1 g engine =>
    obtain rfl : g = f := Except.error.inj (Prod.mk.inj h).1
    exact faithful.engine_failure engine
  case h_2 e _ broken =>
    obtain rfl : .field e = f := Except.error.inj (Prod.mk.inj h).1
    exact faithful.broken_failure broken
  case h_3 g _ _ _ =>
    split at h
    case h_1 cause _ =>
      obtain rfl : .field (.keyGenerationFailed cause (some scheme.tag)) = f :=
        Except.error.inj (Prod.mk.inj h).1
      rintro ⟨_, _, _, he⟩
      cases he
    case h_2 untold =>
      obtain ⟨rfl⟩ := Except.error.inj (Prod.mk.inj h).1
      exact Failure.not_isKeyMissing_of_told untold
  case h_4 => cases h

theorem source_generate (k : KeySource) (scheme : Scheme) (entropy : Entropy) :
    (k.generate scheme entropy).2.source = entropy.source := by
  unfold generate
  split
  case h_3 => split <;> rfl
  all_goals rfl

end KeySource

/-! ## 2. Records -/

namespace Custody

variable {w : KeyWrapper} {o : Owner} {keys : KeyPair} {r : KeyRecord} {entropy entropy' : Entropy}

/-- A record is an owner's, and opens to the given keys. -/
structure Seals (w : KeyWrapper) (o : Owner) (keys : KeyPair) (r : KeyRecord) : Prop where
  owner_eq : r.owner = o
  opens : openRecord w o r = .ok keys

theorem unwrap_wrap (w : KeyWrapper) (exact : entropy.Exact) (key associated : Bytes) :
    openRecord.unwrap w (w.wrap key (some associated) entropy).1 associated = .ok key := by
  have inverse : w.unwrap (w.wrap key (some associated) entropy).1 (some associated) = .ok key :=
    w.unwrap_wrapWith _ key (some associated) (exact entropy.used KeyWrapper.nonceSize)
  simp only [openRecord.unwrap, inverse]

/-- A record made of keys opens to the same keys. -/
theorem seals_closeRecord (exact : entropy.Exact) (scheme : keys.scheme = o.scheme)
    (h : closeRecord w o keys entropy = (.ok r, entropy')) : Seals w o keys r := by
  unfold closeRecord at h
  split at h
  case h_1 forDecryption forEvaluation hd he =>
    obtain ⟨hr, -⟩ := Prod.mk.inj h
    obtain rfl := Except.ok.inj hr
    refine ⟨rfl, ?_⟩
    unfold openRecord
    rw [hd, he]
    have first := unwrap_wrap w exact keys.privateKey forDecryption
    -- The second key is wrapped with what is left of the randomness.
    have exact' : (w.wrap keys.privateKey (some forDecryption) entropy).2.Exact := exact
    have second := unwrap_wrap w exact' keys.evaluationKey forEvaluation
    simp only [Outcome.bind_eq_ok_iff]
    refine ⟨forDecryption, rfl, keys.privateKey, first, forEvaluation, rfl, keys.evaluationKey, second, ?_⟩
    rw [← scheme]
    rfl
  all_goals cases h

theorem failure_associatedData {role : KeyRole} {f : Failure} (h : o.associatedData role = .error f) :
    ¬ f.IsKeyMissing := by
  unfold Owner.associatedData at h
  split at h
  case h_1 => cases h
  case h_2 =>
    obtain rfl := Except.error.inj h
    exact Failure.not_isKeyMissing_raised

theorem failure_closeRecord {f : Failure} (h : closeRecord w o keys entropy = (.error f, entropy')) :
    ¬ f.IsKeyMissing := by
  unfold closeRecord at h
  split at h
  case h_1 => cases h
  case h_2 g hg =>
    obtain rfl : g = f := Except.error.inj (Prod.mk.inj h).1
    exact failure_associatedData hg
  case h_3 g hg _ =>
    obtain rfl : g = f := Except.error.inj (Prod.mk.inj h).1
    exact failure_associatedData hg

theorem source_closeRecord (w : KeyWrapper) (o : Owner) (keys : KeyPair) (entropy : Entropy) :
    (closeRecord w o keys entropy).2.source = entropy.source := by
  unfold closeRecord
  split <;> rfl

theorem failure_unwrap {wrapped associated : Bytes} {f : Failure}
    (h : openRecord.unwrap w wrapped associated = .error f) : ¬ f.IsKeyMissing := by
  have plain : w.unwrap wrapped (some associated) = .error f → ¬ f.IsKeyMissing := by
    intro hf
    unfold KeyWrapper.unwrap at hf
    dsimp only at hf
    split at hf
    case isTrue =>
      obtain rfl := Except.error.inj hf
      exact Failure.not_isKeyMissing_raised
    case isFalse =>
      split at hf
      case h_1 => cases hf
      case h_2 =>
        obtain rfl := Except.error.inj hf
        exact Failure.not_isKeyMissing_raised
  unfold openRecord.unwrap at h
  split at h
  case h_1 =>
    obtain rfl := Except.error.inj h
    rintro ⟨_, _, _, he⟩
    cases he
  case h_2 => exact plain h

/-- A record that does not open is no missing record. -/
theorem failure_openRecord {f : Failure} (h : openRecord w o r = .error f) : ¬ f.IsKeyMissing := by
  unfold openRecord at h
  rcases Outcome.bind_eq_error_iff.1 h with h | ⟨forDecryption, -, h⟩
  · exact failure_associatedData h
  rcases Outcome.bind_eq_error_iff.1 h with h | ⟨privateKey, -, h⟩
  · exact failure_unwrap h
  rcases Outcome.bind_eq_error_iff.1 h with h | ⟨forEvaluation, -, h⟩
  · exact failure_associatedData h
  rcases Outcome.bind_eq_error_iff.1 h with h | ⟨evaluationKey, -, h⟩
  · exact failure_unwrap h
  cases h

end Custody

end SealedFields
