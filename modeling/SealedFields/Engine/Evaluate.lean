import SealedFields.Engine.Algebra

/-!
Applying a named operation under the noise budget: an exhausted result is refreshed if the caller asked
for that, and refused otherwise.
-/

namespace SealedFields

structure Evaluation (ν : Type) where
  ciphertext : Ciphertext ν
  operation : Operation
  /-- Was the result refreshed because it was exhausted? -/
  refreshed : Bool

namespace Engine

variable {ν : Type} [NoiseArithmetic ν]

def apply (e : Engine ν) (op : Operation) (inputs : List (Ciphertext ν)) (amount : Int)
    (key : Option BootstrappingKey) : Computed ν (Ciphertext ν) :=
  match op, inputs with
  | .add, inputs => e.addMany inputs
  | .multiply, inputs => e.multiplyChain inputs
  | .subtract, [a, b] => e.subtract a b
  | .negate, [a] => e.negate a
  | .rotate, [a] => e.rotate a amount
  | .bootstrap, [a] => e.bootstrap a key
  | op, inputs => .error (.arity op inputs.length)

/-- Applies an operation and enforces the noise budget on its result. -/
def evaluate (e : Engine ν) (op : Operation) (inputs : List (Ciphertext ν)) (amount : Int)
    (autoBootstrap : Bool) (key : Option BootstrappingKey) : Computed ν (Evaluation ν) := do
  let result ← e.apply op inputs amount key
  if !result.isExhausted then return ⟨result, op, false⟩
  else if autoBootstrap then return ⟨← e.bootstrap result key, op, true⟩
  else .error (.noiseOverflow result.noise op)

def evaluateNamed (e : Engine ν) (operation : Text) (inputs : List (Ciphertext ν)) (amount : Int)
    (autoBootstrap : Bool) (key : Option BootstrappingKey) : Computed ν (Evaluation ν) :=
  match Operation.ofName? operation with
  | some op => e.evaluate op inputs amount autoBootstrap key
  | none => .error (.unsupported operation none)

end Engine

end SealedFields
