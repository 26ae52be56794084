import SealedFields.Failure
import SealedFields.Ciphertext.Payload

/-!
Ciphertexts: payload bytes together with the account that every operation keeps of them, that is noise
level, multiplicative depth and size (number of components). The account is kept in any arithmetic of
noise levels; the service uses 64-bit floats, and exact numbers give the ideal account.
-/

namespace SealedFields

class NoiseArithmetic (ν : Type) where
  /-- The noise of a refreshed ciphertext, and the least one of a fresh ciphertext. -/
  base : ν
  /-- The least noise a ciphertext may have. Wire formats round down, so it lies a little below `base`. -/
  least : ν
  /-- Above it a ciphertext is exhausted. -/
  limit : ν
  add : ν → ν → ν
  mul : ν → ν → ν
  less : ν → ν → Bool
  /-- The quotient of two moduli, unless it is too large. -/
  ratio? : (target source : Nat) → Option ν
  /-- A byte times a ratio, rounded down, modulo 256. -/
  scaleByte : ν → UInt8 → UInt8

structure Ciphertext (ν : Type) where
  payload : Bytes
  noise : ν
  depth : Nat
  size : Nat
  bootstrapped : Bool
  relinearized : Bool
  deriving Inhabited

namespace Ciphertext

variable {ν : Type} [NoiseArithmetic ν]

/-- The size of a fresh ciphertext, and the least there is. -/
def freshSize : Nat := 2

/-- The greatest size that may be multiplied further. -/
def maxSize : Nat := 3

inductive Fault (ν : Type) where
  | noiseTooLow (noise : ν)
  | negativeDepth
  | tooFewComponents

/-- The invariant of ciphertexts: enough noise and enough components. -/
def Valid (c : Ciphertext ν) : Prop :=
  NoiseArithmetic.less c.noise NoiseArithmetic.least = false ∧ freshSize ≤ c.size

instance (c : Ciphertext ν) : Decidable c.Valid := inferInstanceAs (Decidable (_ ∧ _))

/-- The ciphertext if it is valid; noise is looked at first. -/
def checked (c : Ciphertext ν) : Except (Fault ν) (Ciphertext ν) :=
  if NoiseArithmetic.less c.noise NoiseArithmetic.least then .error (.noiseTooLow c.noise)
  else if c.size < freshSize then .error .tooFewComponents
  else .ok c

theorem checked_eq_ok_iff {c d : Ciphertext ν} : c.checked = .ok d ↔ c.Valid ∧ d = c := by
  unfold checked Valid
  split
  · simp_all
  · split
    · simp only [reduceCtorEq, false_iff, not_and]
      intro h
      omega
    · simp_all only [Except.ok.injEq, Bool.not_eq_true, Nat.not_lt, true_and]
      exact eq_comm

/-- A ciphertext from its parts, the depth and size being any integers. -/
def ofParts (payload : Bytes) (noise : ν) (depth size : Int) (bootstrapped relinearized : Bool) :
    Except (Fault ν) (Ciphertext ν) :=
  if NoiseArithmetic.less noise NoiseArithmetic.least then .error (.noiseTooLow noise)
  else if depth < 0 then .error .negativeDepth
  else checked ⟨payload, noise, depth.toNat, size.toNat, bootstrapped, relinearized⟩

def isExhausted (c : Ciphertext ν) : Bool := NoiseArithmetic.less NoiseArithmetic.limit c.noise

def needsRelinearization (c : Ciphertext ν) : Bool := maxSize < c.size

end Ciphertext

end SealedFields
