import SealedFields.Proofs.Ciphertext.Polynomial
import SealedFields.Proofs.Engine.Account

/-!
# Payloads under the algebra

What an engine makes of payloads does not depend on its growth factors or on the account of its inputs: payloads
are added, multiplied and negated as polynomials, wherever the results are valid ciphertexts. Sums and products of
several take their inputs in any order.
-/

namespace SealedFields.Engine

open Payload (polynomial)

variable {ν : Type} [NoiseArithmetic ν] {e : Engine ν} {a b r : Ciphertext ν}
  {rest inputs inputs' : List (Ciphertext ν)}

/-! ## 1. Single operations -/

theorem payload_add (h : e.add a b = .ok r) : r.payload = Payload.add a.payload b.payload := by
  obtain ⟨-, rfl⟩ := handOut_eq_ok_iff.1 h
  rfl

theorem payload_multiply (h : e.multiply a b = .ok r) : r.payload = Payload.mul a.payload b.payload := by
  obtain ⟨-, rfl⟩ := handOut_eq_ok_iff.1 h
  rfl

theorem payload_negate (h : e.negate a = .ok r) : r.payload = Payload.negate a.payload := by
  obtain ⟨-, rfl⟩ := handOut_eq_ok_iff.1 h
  rfl

theorem payload_relinearize (h : relinearize a = .ok r) : r.payload = a.payload := by
  obtain ⟨-, rfl⟩ := handOut_eq_ok_iff.1 h
  rfl

theorem payload_multiplyStep (h : e.multiplyStep a b = .ok r) : r.payload = Payload.mul a.payload b.payload := by
  obtain ⟨product, made, h⟩ := Outcome.bind_eq_ok_iff.1 h
  rw [← payload_multiply made]
  split at h
  case isTrue => exact payload_relinearize h
  case isFalse =>
    obtain rfl := Except.ok.inj h
    rfl

/-! ## 2. Several inputs -/

/-- What a payload is up to trailing zeros, and how long it is. -/
structure HasPolynomial (c : Ciphertext ν) (p : Polynomial (ZMod 256)) (n : Nat) : Prop where
  polynomial : polynomial c.payload = p
  length : c.payload.length = n

omit [NoiseArithmetic ν] in
theorem HasPolynomial.payload_eq {c d : Ciphertext ν} {p : Polynomial (ZMod 256)} {n : Nat} (hc : HasPolynomial c p n)
    (hd : HasPolynomial d p n) : c.payload = d.payload :=
  Payload.eq_of_polynomial (hc.length.trans hd.length.symm) (hc.polynomial.trans hd.polynomial.symm)

theorem hasPolynomial_sumFrom (h : e.sumFrom a rest = .ok r) :
    HasPolynomial r (polynomial a.payload + (rest.map fun c => polynomial c.payload).sum)
      (max a.payload.length ((rest.map fun c => c.payload.length).foldr max 0)) := by
  induction rest generalizing a with
  | nil =>
    obtain rfl := Except.ok.inj h
    exact ⟨(add_zero _).symm, (Nat.max_zero _).symm⟩
  | cons b rest ih =>
    obtain ⟨sum, first, h⟩ := Outcome.bind_eq_ok_iff.1 h
    obtain ⟨value, length⟩ := ih h
    rw [payload_add first, Payload.polynomial_add, add_assoc] at value
    rw [payload_add first, Payload.length_add, max_assoc] at length
    exact ⟨value, length⟩

theorem hasPolynomial_productFrom (h : e.productFrom a rest = .ok r) :
    HasPolynomial r (polynomial a.payload * (rest.map fun c => polynomial c.payload).prod)
      (a.payload.length + (rest.map fun c => c.payload.length).sum) := by
  induction rest generalizing a with
  | nil =>
    obtain rfl := Except.ok.inj h
    exact ⟨(mul_one _).symm, rfl⟩
  | cons b rest ih =>
    obtain ⟨product, first, h⟩ := Outcome.bind_eq_ok_iff.1 h
    obtain ⟨value, length⟩ := ih h
    rw [payload_multiplyStep first, Payload.polynomial_mul, mul_assoc] at value
    rw [payload_multiplyStep first, Payload.length_mul, add_assoc] at length
    exact ⟨value, length⟩

/-- A sum of several is as long as its longest input. -/
theorem hasPolynomial_addMany (h : e.addMany inputs = .ok r) :
    HasPolynomial r (inputs.map fun c => polynomial c.payload).sum
      ((inputs.map fun c => c.payload.length).foldr max 0) := by
  unfold addMany at h
  split at h
  case h_1 => exact hasPolynomial_sumFrom h
  case h_2 => cases h

/-- A product of several is as long as its inputs together, relinearized or not. -/
theorem hasPolynomial_multiplyChain (h : e.multiplyChain inputs = .ok r) :
    HasPolynomial r (inputs.map fun c => polynomial c.payload).prod (inputs.map fun c => c.payload.length).sum := by
  unfold multiplyChain at h
  split at h
  case h_1 => exact hasPolynomial_productFrom h
  case h_2 => cases h

/-! ## 3. Laws -/

/-- Two computations have the same payload wherever both have a result. -/
def SamePayload (x y : Computed ν (Ciphertext ν)) : Prop := ∀ r s, x = .ok r → y = .ok s → r.payload = s.payload

theorem samePayload_addMany (perm : inputs.Perm inputs') : SamePayload (e.addMany inputs) (e.addMany inputs') := by
  intro r s hr hs
  have other := hasPolynomial_addMany hs
  rw [← (perm.map _).sum_eq, ← (perm.map _).foldr_eq] at other
  exact (hasPolynomial_addMany hr).payload_eq other

theorem samePayload_multiplyChain (perm : inputs.Perm inputs') :
    SamePayload (e.multiplyChain inputs) (e.multiplyChain inputs') := by
  intro r s hr hs
  have other := hasPolynomial_multiplyChain hs
  rw [← (perm.map _).prod_eq, ← (perm.map _).sum_eq] at other
  exact (hasPolynomial_multiplyChain hr).payload_eq other

/-- Payloads follow the arithmetic of polynomials over the integers modulo 256, whatever happens to the account. Sums
are as long as the longer operand and products as long as both together, and with these lengths the laws hold byte by
byte, trailing zeros and empty payloads included. -/
theorem payload_algebra (e : Engine ν) (a b c : Ciphertext ν) :
    (∀ r, e.add a b = .ok r → r.payload.length = max a.payload.length b.payload.length ∧
      polynomial r.payload = polynomial a.payload + polynomial b.payload) ∧
    (∀ r, e.multiply a b = .ok r → r.payload.length = a.payload.length + b.payload.length ∧
      polynomial r.payload = polynomial a.payload * polynomial b.payload) ∧
    SamePayload (e.add a b) (e.add b a) ∧
    SamePayload (do e.add (← e.add a b) c) (do e.add a (← e.add b c)) ∧
    SamePayload (e.multiply a b) (e.multiply b a) ∧
    SamePayload (do e.multiply (← e.multiply a b) c) (do e.multiply a (← e.multiply b c)) ∧
    SamePayload (do e.multiply a (← e.add b c)) (do e.add (← e.multiply a b) (← e.multiply a c)) ∧
    e.subtract a b = (do e.add a (← e.negate b)) ∧
    (∀ n, e.negate b = .ok n → n.payload.length = b.payload.length ∧
      polynomial n.payload = -polynomial b.payload) ∧
    (∀ r, e.subtract a a = .ok r → r.payload = List.replicate a.payload.length 0) ∧
    (∀ inputs inputs', inputs.Perm inputs' → SamePayload (e.addMany inputs) (e.addMany inputs')) ∧
    (∀ inputs inputs', inputs.Perm inputs' → SamePayload (e.multiplyChain inputs) (e.multiplyChain inputs')) := by
  refine ⟨fun r h => ?_, fun r h => ?_, fun r s hr hs => ?_, fun r s hr hs => ?_, fun r s hr hs => ?_,
    fun r s hr hs => ?_, fun r s hr hs => ?_, rfl, fun n h => ?_, fun r h => ?_, fun _ _ => samePayload_addMany,
    fun _ _ => samePayload_multiplyChain⟩
  · rw [payload_add h]
    exact ⟨Payload.length_add _ _, Payload.polynomial_add _ _⟩
  · rw [payload_multiply h]
    exact ⟨Payload.length_mul _ _, Payload.polynomial_mul _ _⟩
  · rw [payload_add hr, payload_add hs, Payload.add_comm]
  · obtain ⟨left, made, hr⟩ := Outcome.bind_eq_ok_iff.1 hr
    obtain ⟨right, made', hs⟩ := Outcome.bind_eq_ok_iff.1 hs
    rw [payload_add hr, payload_add made, payload_add hs, payload_add made', Payload.add_assoc]
  · rw [payload_multiply hr, payload_multiply hs, Payload.mul_comm]
  · obtain ⟨left, made, hr⟩ := Outcome.bind_eq_ok_iff.1 hr
    obtain ⟨right, made', hs⟩ := Outcome.bind_eq_ok_iff.1 hs
    rw [payload_multiply hr, payload_multiply made, payload_multiply hs, payload_multiply made', Payload.mul_assoc]
  · obtain ⟨sum, made, hr⟩ := Outcome.bind_eq_ok_iff.1 hr
    obtain ⟨left, made', hs⟩ := Outcome.bind_eq_ok_iff.1 hs
    obtain ⟨right, made'', hs⟩ := Outcome.bind_eq_ok_iff.1 hs
    rw [payload_multiply hr, payload_add made, payload_add hs, payload_multiply made', payload_multiply made'',
      Payload.mul_add]
  · rw [payload_negate h]
    exact ⟨Payload.length_negate _, Payload.polynomial_negate _⟩
  · obtain ⟨n, negated, h⟩ := subtract_eq_ok h
    rw [payload_add h, payload_negate negated, Payload.add_negate]

/-- A ciphertext as the engines make them. -/
def plain (payload : Bytes) : Ciphertext Float := ⟨payload, baseNoise, 0, Ciphertext.freshSize, false, false⟩

theorem payload_algebra_shuffled :
    let e := (Parameters.registered .tfhe).engine
    ∃ r s, e.multiplyChain [plain [200, 3], plain [100], plain [7, 0]] = .ok r ∧
      e.multiplyChain [plain [7, 0], plain [200, 3], plain [100]] = .ok s ∧
      [plain [200, 3], plain [100], plain [7, 0]].Perm [plain [7, 0], plain [200, 3], plain [100]] ∧
      r.payload = s.payload ∧ r.payload = [224, 52, 0, 0, 0] := by
  intro e
  have product : (e.multiplyChain [plain [200, 3], plain [100], plain [7, 0]]).toOption.map (·.payload)
      = some [224, 52, 0, 0, 0] := by decide
  have product' : (e.multiplyChain [plain [7, 0], plain [200, 3], plain [100]]).toOption.isSome = true := by
    decide
  obtain ⟨r, made, payload⟩ := Option.map_eq_some_iff.1 product
  obtain ⟨s, made'⟩ := Option.isSome_iff_exists.1 product'
  rw [Outcome.toOption_eq_some_iff] at made made'
  have turned : [plain [200, 3], plain [100], plain [7, 0]].Perm [plain [7, 0], plain [200, 3], plain [100]] :=
    @List.perm_append_comm _ [plain [200, 3], plain [100]] [plain [7, 0]]
  obtain ⟨-, -, -, -, -, -, -, -, -, -, -, products⟩ := payload_algebra e (plain []) (plain []) (plain [])
  exact ⟨r, s, made, made', turned, products _ _ turned r s made made', payload⟩

end SealedFields.Engine
