import SealedFields.Proofs.Engine.Account
import SealedFields.Proofs.Number.FloatBounds

/-!
# The noise budget in floats

Where noise grows at least as it does under the registered parameters, noise that starts at the base is a
number from then on, so that it is within the limit or exhausted. A product of three or more is always
exhausted: the third power of three, doubled twice, is beyond the limit.
-/

namespace SealedFields

open Number (AtLeast)

/-- Sums and rotations do not let noise shrink, and products double it. -/
structure Growing (g : GrowthFactors Float) : Prop where
  add : AtLeast 1 g.add
  multiply : AtLeast 2 g.multiply
  rotate : AtLeast 1 g.rotate

theorem growing_standard : Growing .standard := ⟨by decide, by decide, by decide⟩

theorem growing_registered (s : Scheme) : Growing (Parameters.registered s).engine.growth := by
  cases s <;> exact growing_standard

theorem baseNoise_atLeast : AtLeast 3 baseNoise := by decide

theorem leastNoise_atLeast : AtLeast 3 (baseNoise - 1e-9) := by decide

theorem maxNoise_lacks : ¬ AtLeast 108 maxNoise := by decide

theorem isNaN_maxNoise : maxNoise.isNaN = false := by decide

namespace Ciphertext

/-- The noise is a number, and not below three. -/
def Noisy (c : Ciphertext Float) : Prop := AtLeast 3 c.noise

theorem Noisy.noise_le_or_isExhausted {c : Ciphertext Float} (h : c.Noisy) :
    c.noise ≤ maxNoise ∨ c.isExhausted = true := by
  rcases Number.le_or_lt h.isNaN isNaN_maxNoise with within | beyond
  · exact .inl within
  · exact .inr (decide_eq_true beyond)

end Ciphertext

namespace Engine

open Ciphertext (Noisy)

variable {e : Engine Float} {key : Option BootstrappingKey} {a b c r : Ciphertext Float}
  {inputs rest : List (Ciphertext Float)} {amount : Int}

/-! ## 1. Single operations -/

/-- One factor more at least sextuples the noise. -/
theorem noise_of_multiplyStep (growing : Growing e.growth) {k : Nat} (ha : AtLeast k a.noise) (hb : b.Noisy)
    (positive : 0 < k) (fits : k * 3 * 2 ≤ 2 ^ 53) (h : e.multiplyStep a b = .ok r) :
    AtLeast (k * 3 * 2) r.noise := by
  rw [(multiplyStep_eq_ok h).1]
  have two := ha.mul hb positive (by decide) (by omega)
  exact two.mul growing.multiply (by omega) (by decide) fits

theorem preserves_noisy (growing : Growing e.growth) : e.Preserves Noisy where
  add ha hb h := by
    obtain ⟨-, rfl⟩ := handOut_eq_ok_iff.1 h
    have sum := ha.add hb (by decide) (by decide) (by decide)
    exact (sum.add growing.add (by decide) (by decide) (by decide)).mono (by decide)
  multiplyStep ha hb h := (noise_of_multiplyStep growing ha hb (by decide) (by decide) h).mono (by decide)
  negate ha h := by
    obtain ⟨-, rfl⟩ := handOut_eq_ok_iff.1 h
    exact ha.mul growing.add (by decide) (by decide) (by decide)
  rotate ha h := by
    obtain ⟨-, rfl⟩ := handOut_eq_ok_iff.1 h
    exact ha.mul growing.rotate (by decide) (by decide) (by decide)
  bootstrap _ h := by
    rw [bootstrap_eq_ok h]
    exact baseNoise_atLeast

/-! ## 2. Products of three and more -/

/-- Further factors do not take a bound back. -/
theorem noise_of_productFrom (growing : Growing e.growth) {k : Nat} (first : AtLeast k a.noise)
    (others : ∀ b ∈ rest, b.Noisy) (positive : 0 < k) (fits : k * 3 * 2 ≤ 2 ^ 53)
    (h : e.productFrom a rest = .ok r) : AtLeast k r.noise := by
  rw [productFrom_eq_foldlM] at h
  refine Outcome.foldlM_preserves (P := fun c : Ciphertext Float => AtLeast k c.noise) h first
    fun c b member d hc made => ?_
  exact (noise_of_multiplyStep growing hc (others b member) positive fits made).mono (by omega)

theorem isExhausted_of_product (growing : Growing e.growth) (all : ∀ a ∈ inputs, a.Noisy)
    (three : 2 < inputs.length) (h : e.apply .multiply inputs amount key = .ok r) : r.isExhausted = true := by
  match inputs, all, three, h with
  | a :: b :: c :: rest, all, _, h =>
    rw [List.forall_mem_cons, List.forall_mem_cons, List.forall_mem_cons] at all
    obtain ⟨ha, hb, hc, others⟩ := all
    obtain ⟨ab, made, h⟩ := Outcome.bind_eq_ok_iff.1 h
    obtain ⟨abc, made', h⟩ := Outcome.bind_eq_ok_iff.1 h
    have two := noise_of_multiplyStep growing ha hb (by decide) (by decide) made
    have three := noise_of_multiplyStep growing two hc (by decide) (by decide) made'
    have large := noise_of_productFrom growing three others (by decide) (by decide) h
    exact decide_eq_true (large.lt (by decide) isNaN_maxNoise maxNoise_lacks)

/-- A product of three or more succeeds only as a refreshed one. -/
theorem refreshed_of_product (growing : Growing e.growth) (all : ∀ a ∈ inputs, a.Noisy)
    (three : 2 < inputs.length) {refreshes : Bool} {ev : Evaluation Float}
    (h : e.evaluate .multiply inputs amount refreshes key = .ok ev) : ev.refreshed = true := by
  obtain ⟨result, applied, ⟨fresh, -⟩ | ⟨-, r, -, rfl⟩⟩ := evaluate_eq_ok h
  · rw [isExhausted_of_product growing all three applied] at fresh
    cases fresh
  · rfl

end Engine

end SealedFields
