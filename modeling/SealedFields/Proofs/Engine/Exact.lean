import Mathlib.Algebra.Order.Field.Rat
import Mathlib.Data.Rat.Floor
import SealedFields.Proofs.Engine.Account
import SealedFields.Proofs.Number.Power

/-!
# Exact noise

The account of ciphertexts in rational numbers: what the floats of the service stand for, without rounding
and without an overflow. The engine is the same one; only the arithmetic of noise levels is exact.
-/

namespace SealedFields

open NoiseArithmetic (base least)

/-! ## 1. The arithmetic -/

/-- A byte is scaled by an exact quotient, which is never too large. -/
instance : NoiseArithmetic ℚ where
  base := 16 / 5
  least := 16 / 5 - 1 / 10 ^ 9
  limit := 100
  add := (· + ·)
  mul := (· * ·)
  less x y := x < y
  ratio? target source := some (target / source)
  scaleByte ratio b := UInt8.ofNat (⌊b.toNat * ratio⌋ % 256).toNat

theorem exactBase_eq : (base : ℚ) = 16 / 5 := rfl

theorem exactLess_iff {x y : ℚ} : NoiseArithmetic.less x y = true ↔ x < y := decide_eq_true_iff

theorem exactLess_eq_false_iff {x y : ℚ} : NoiseArithmetic.less x y = false ↔ y ≤ x := by
  rw [← Bool.not_eq_true, exactLess_iff, not_lt]

theorem exactLeast_lt_base : (least : ℚ) < base := by
  show (16 / 5 - 1 / 10 ^ 9 : ℚ) < 16 / 5
  norm_num

/-! ## 2. Engines -/

/-- The number that a float stands for. -/
def exactly (x : Float) : ℚ := (Number.Binary64.ofFloat x).toRat

def GrowthFactors.exactly (g : GrowthFactors Float) : GrowthFactors ℚ :=
  ⟨SealedFields.exactly g.add, SealedFields.exactly g.multiply, SealedFields.exactly g.rotate,
    SealedFields.exactly g.negate, SealedFields.exactly g.bootstrap⟩

namespace Engine

/-- The engine with the factors that its floats stand for. -/
def exactly (e : Engine Float) : Engine ℚ := ⟨e.scheme, e.growth.exactly⟩

/-- Operations do not let noise shrink. -/
structure Amplifying (e : Engine ℚ) : Prop where
  add : 1 ≤ e.growth.add
  multiply : 1 ≤ e.growth.multiply
  rotate : 1 ≤ e.growth.rotate

theorem amplifying_registered (s : Scheme) : (Parameters.registered s).engine.exactly.Amplifying := by
  have add : 1 ≤ SealedFields.exactly 1.1 := by decide +kernel
  have multiply : 1 ≤ SealedFields.exactly 2.5 := by decide +kernel
  have rotate : 1 ≤ SealedFields.exactly 1.2 := by decide +kernel
  cases s <;> exact ⟨add, multiply, rotate⟩

end Engine

end SealedFields
