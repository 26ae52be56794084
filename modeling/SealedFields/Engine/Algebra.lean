import SealedFields.Ciphertext.Basic
import SealedFields.Engine.Operation
import SealedFields.Key.Pair
import SealedFields.Parameters

/-!
The algebra of ciphertexts under one scheme. Payloads are computed as polynomials modulo 256, noise grows
by the scheme's factors, and every result is checked before it is handed out.
-/

namespace SealedFields

open NoiseArithmetic (add mul less base)

structure Engine (ν : Type) where
  scheme : Scheme
  growth : GrowthFactors ν

inductive EngineFault (ν : Type) where
  | ciphertext (f : Ciphertext.Fault ν)
  | unsupported (operation : Text) (reason : Option Text)
  | arity (operation : Operation) (received : Nat)
  | noiseOverflow (level : ν) (operation : Operation)
  | modulusNotPositive
  | ratioTooLarge

namespace Engine

variable {ν : Type} [NoiseArithmetic ν]

abbrev Computed (ν α : Type) := Except (EngineFault ν) α

def handOut (c : Ciphertext ν) : Computed ν (Ciphertext ν) := c.checked.mapError .ciphertext

/-- The sum. Noise levels add up; the flags start afresh and the size is the first operand's. -/
def add (e : Engine ν) (a b : Ciphertext ν) : Computed ν (Ciphertext ν) :=
  handOut {
    payload := Payload.add a.payload b.payload
    noise := NoiseArithmetic.add (NoiseArithmetic.add a.noise b.noise) e.growth.add
    depth := max a.depth b.depth
    size := a.size
    bootstrapped := false
    relinearized := false }

/-- The product. Noise levels multiply, sizes add up, and the depth grows by one. -/
def multiply (e : Engine ν) (a b : Ciphertext ν) : Computed ν (Ciphertext ν) :=
  handOut {
    payload := Payload.mul a.payload b.payload
    noise := mul (mul a.noise b.noise) e.growth.multiply
    depth := max a.depth b.depth + 1
    size := a.size + b.size
    bootstrapped := false
    relinearized := false }

/-- The negative. Noise is multiplied by the additive factor. -/
def negate (e : Engine ν) (a : Ciphertext ν) : Computed ν (Ciphertext ν) :=
  handOut { a with payload := Payload.negate a.payload, noise := mul a.noise e.growth.add }

def rotate (e : Engine ν) (a : Ciphertext ν) (amount : Int) : Computed ν (Ciphertext ν) :=
  handOut { a with payload := Payload.rotate amount a.payload, noise := mul a.noise e.growth.rotate }

def relinearize (a : Ciphertext ν) : Computed ν (Ciphertext ν) :=
  handOut { a with size := Ciphertext.freshSize, relinearized := true }

/-- Refreshes noise and depth; the payload stays. A key of another scheme is refused. -/
def bootstrap (e : Engine ν) (a : Ciphertext ν) (key : Option BootstrappingKey) :
    Computed ν (Ciphertext ν) :=
  match key with
  | some k =>
    if k.scheme = e.scheme then refresh
    else .error (.unsupported "bootstrap"
      (some ("bootstrapping key is for " ++ k.scheme.tag ++ ", engine is " ++ e.scheme.tag)))
  | none => refresh
where
  refresh : Computed ν (Ciphertext ν) := handOut { a with noise := base, depth := 0, bootstrapped := true }

/-- `x`, or the base noise where `x` is not above it. -/
def atLeastBase (x : ν) : ν := if less base x then x else base

/-- Rescales payload and noise by `to / source`; noise never drops below the base noise. -/
def modulusSwitch (a : Ciphertext ν) (source target : Int) : Computed ν (Ciphertext ν) :=
  if source ≤ 0 ∨ target ≤ 0 then .error .modulusNotPositive
  else match NoiseArithmetic.ratio? target.toNat source.toNat with
    | none => .error .ratioTooLarge
    | some ratio => handOut { a with
        payload := a.payload.map (NoiseArithmetic.scaleByte ratio)
        noise := atLeastBase (mul a.noise ratio) }

def subtract (e : Engine ν) (a b : Ciphertext ν) : Computed ν (Ciphertext ν) := do
  e.add a (← e.negate b)

def sumFrom (e : Engine ν) : Ciphertext ν → List (Ciphertext ν) → Computed ν (Ciphertext ν)
  | a, [] => .ok a
  | a, b :: rest => do sumFrom e (← e.add a b) rest

def addMany (e : Engine ν) : List (Ciphertext ν) → Computed ν (Ciphertext ν)
  | a :: b :: rest => e.sumFrom a (b :: rest)
  | inputs => .error (.arity .add inputs.length)

/-- One factor more, relinearizing a product that has grown too large. -/
def multiplyStep (e : Engine ν) (a b : Ciphertext ν) : Computed ν (Ciphertext ν) := do
  let c ← e.multiply a b
  if c.needsRelinearization then relinearize c else .ok c

def productFrom (e : Engine ν) : Ciphertext ν → List (Ciphertext ν) → Computed ν (Ciphertext ν)
  | a, [] => .ok a
  | a, b :: rest => do productFrom e (← e.multiplyStep a b) rest

/-- The product of two or more inputs, each intermediate one fit to be multiplied again. -/
def multiplyChain (e : Engine ν) : List (Ciphertext ν) → Computed ν (Ciphertext ν)
  | a :: b :: rest => e.productFrom a (b :: rest)
  | inputs => .error (.arity .multiply inputs.length)

/-- Re-encryption under a new key is not available. -/
def keySwitch (_ : Ciphertext ν) : Computed ν (Ciphertext ν) :=
  .error (.unsupported "key_switch" (some "only key-switching key derivation is available"))

end Engine

def Parameters.engine (p : Parameters) : Engine Float := ⟨p.scheme, p.growth⟩

end SealedFields
