import Mathlib.Algebra.Polynomial.Coeff
import Mathlib.Data.List.GetD
import Mathlib.Data.ZMod.Basic
import Mathlib.Tactic.Ring
import SealedFields.Ciphertext.Payload

/-!
# Payloads are polynomials

A payload is a polynomial over the integers modulo 256 together with a length, as trailing zero bytes count. Sums,
products and negatives of payloads are those of the polynomials, so that the laws of polynomials hold of payloads
wherever the lengths on both sides agree.
-/

namespace SealedFields.Payload

open Polynomial (X C)

/-! ## 1. Bytes as residues -/

/-- The residue modulo 256 that a byte stands for. -/
def residue (x : UInt8) : ZMod 256 := (x.toNat : ZMod 256)

theorem residue_zero : residue 0 = 0 := Nat.cast_zero

theorem residue_add (x y : UInt8) : residue (x + y) = residue x + residue y := by
  rw [residue, UInt8.toNat_add, residue, residue, ← Nat.cast_add]
  exact ZMod.natCast_mod _ 256

theorem residue_mul (x y : UInt8) : residue (x * y) = residue x * residue y := by
  rw [residue, UInt8.toNat_mul, residue, residue, ← Nat.cast_mul]
  exact ZMod.natCast_mod _ 256

theorem residue_neg (x : UInt8) : residue (0 - x) = -residue x := by
  rw [eq_neg_iff_add_eq_zero, ← residue_add, UInt8.sub_add_cancel, residue_zero]

theorem residue_inj {x y : UInt8} (h : residue x = residue y) : x = y := by
  have same : x.toNat ≡ y.toNat [MOD 256] := (ZMod.natCast_eq_natCast_iff _ _ 256).1 h
  have less : x.toNat % 256 = y.toNat % 256 := same
  rw [Nat.mod_eq_of_lt x.toNat_lt, Nat.mod_eq_of_lt y.toNat_lt] at less
  exact UInt8.toNat_inj.1 less

/-! ## 2. The polynomial of a payload -/

/-- The polynomial whose coefficients are the bytes, the constant term first. -/
noncomputable def polynomial : Bytes → Polynomial (ZMod 256)
  | [] => 0
  | x :: a => C (residue x) + X * polynomial a

/-- Byte `i` is coefficient `i`, and there are no others. -/
theorem coeff_polynomial (a : Bytes) (i : Nat) : (polynomial a).coeff i = residue (a.getD i 0) := by
  induction a generalizing i with
  | nil => exact residue_zero.symm
  | cons x a ih =>
    rw [polynomial, Polynomial.coeff_add]
    cases i with
    | zero => rw [Polynomial.coeff_C_zero, Polynomial.coeff_X_mul_zero, add_zero, List.getD_cons_zero]
    | succ i => rw [Polynomial.coeff_C_succ, Polynomial.coeff_X_mul, zero_add, ih, List.getD_cons_succ]

/-- Payloads of one length with the same polynomial are the same. -/
theorem eq_of_polynomial {a b : Bytes} (length : a.length = b.length) (h : polynomial a = polynomial b) : a = b := by
  refine List.ext_getElem length fun i ha hb => ?_
  have coeff := congrArg (Polynomial.coeff · i) h
  simp only [coeff_polynomial] at coeff
  rw [List.getD_eq_getElem _ _ ha, List.getD_eq_getElem _ _ hb] at coeff
  exact residue_inj coeff

theorem polynomial_zeros (n : Nat) : polynomial (List.replicate n 0) = 0 := by
  induction n with
  | zero => rfl
  | succ n ih => rw [List.replicate_succ, polynomial, ih, residue_zero, Polynomial.C_0, mul_zero, add_zero]

theorem polynomial_add (a b : Bytes) : polynomial (add a b) = polynomial a + polynomial b := by
  induction a generalizing b with
  | nil => rw [add, polynomial, zero_add]
  | cons x a ih =>
    cases b with
    | nil => rw [add, polynomial, polynomial, add_zero]
    | cons y b =>
      rw [add, polynomial, polynomial, polynomial, ih, residue_add, Polynomial.C_add]
      ring

theorem polynomial_scale (x : UInt8) (b : Bytes) : polynomial (scale x b) = C (residue x) * polynomial b := by
  induction b with
  | nil => rw [scale, List.map_nil, polynomial, mul_zero]
  | cons y b ih =>
    have split : scale x (y :: b) = (x * y) :: scale x b := rfl
    rw [split, polynomial, polynomial, ih, residue_mul, Polynomial.C_mul]
    ring

/-- The product is the convolution of the bytes. -/
theorem polynomial_mul (a b : Bytes) : polynomial (mul a b) = polynomial a * polynomial b := by
  induction a with
  | nil => rw [mul, polynomial_zeros, polynomial, zero_mul]
  | cons x a ih =>
    rw [mul, polynomial_add, polynomial_scale, polynomial, polynomial, ih, residue_zero, Polynomial.C_0]
    ring

theorem polynomial_negate (a : Bytes) : polynomial (negate a) = -polynomial a := by
  induction a with
  | nil => exact neg_zero.symm
  | cons x a ih =>
    have split : negate (x :: a) = (0 - x) :: negate a := rfl
    rw [split, polynomial, polynomial, ih, residue_neg, Polynomial.C_neg]
    ring

/-! ## 3. Laws -/

variable (a b c : Bytes)

protected theorem add_comm : add a b = add b a := by
  apply eq_of_polynomial
  · rw [length_add, length_add, max_comm]
  · rw [polynomial_add, polynomial_add, add_comm]

protected theorem add_assoc : add (add a b) c = add a (add b c) := by
  apply eq_of_polynomial
  · rw [length_add, length_add, length_add, length_add, max_assoc]
  · rw [polynomial_add, polynomial_add, polynomial_add, polynomial_add, add_assoc]

protected theorem mul_comm : mul a b = mul b a := by
  apply eq_of_polynomial
  · rw [length_mul, length_mul, add_comm]
  · rw [polynomial_mul, polynomial_mul, mul_comm]

protected theorem mul_assoc : mul (mul a b) c = mul a (mul b c) := by
  apply eq_of_polynomial
  · rw [length_mul, length_mul, length_mul, length_mul, add_assoc]
  · rw [polynomial_mul, polynomial_mul, polynomial_mul, polynomial_mul, mul_assoc]

protected theorem mul_add : mul a (add b c) = add (mul a b) (mul a c) := by
  apply eq_of_polynomial
  · rw [length_mul, length_add, length_add, length_mul, length_mul, Nat.add_max_add_left]
  · rw [polynomial_mul, polynomial_add, polynomial_add, polynomial_mul, polynomial_mul, mul_add]

protected theorem add_negate : add a (negate a) = List.replicate a.length 0 := by
  apply eq_of_polynomial
  · rw [length_add, length_negate, max_self, List.length_replicate]
  · rw [polynomial_add, polynomial_negate, add_neg_cancel, polynomial_zeros]

example : mul [1, 2] [3, 4] = [3, 10, 8, 0] := by decide

end SealedFields.Payload
