import SealedFields.Scheme
import SealedFields.Digest.Sha256
import SealedFields.Json.Printer
import SealedFields.Value.Sorted
import SealedFields.Text.Utf8

/-!
The parameter record of a scheme: its sizing, the standard deviation of fresh noise, and how much each
operation makes noise grow. Records are fixed per scheme, checked once at bring-up, and identified by a
digest of their canonical text.
-/

namespace SealedFields

/-- How much each operation makes noise grow: `add` is added, the others multiply. -/
structure GrowthFactors (ν : Type) where
  add : ν
  multiply : ν
  rotate : ν
  negate : ν
  bootstrap : ν

namespace GrowthFactors

def standard : GrowthFactors Float := ⟨1.1, 2.5, 1.2, 1.05, 0.1⟩

def toEntries (g : GrowthFactors Float) : Entries :=
  [("add", .float g.add), ("multiply", .float g.multiply), ("rotate", .float g.rotate),
    ("negate", .float g.negate), ("bootstrap", .float g.bootstrap)]

/-- The least of the four factors that computations use; a comparison with NaN never holds. -/
def least (g : GrowthFactors Float) : Float :=
  [g.multiply, g.rotate, g.negate].foldl (fun m x => if x < m then x else m) g.add

end GrowthFactors

/-- The parameters of one scheme. `extra` holds sizing that only this scheme has. -/
structure Parameters where
  scheme : Scheme
  ringDimension : Int
  modulusBits : Int
  /-- Zero for the scheme of real numbers. -/
  plaintextModulus : Int
  noiseDeviation : Float
  securityLevel : Int
  simdSlots : Int
  growth : GrowthFactors Float
  extra : Entries

def baseNoise : Float := 3.2

namespace Parameters

def registered : Scheme → Parameters
  | .tfhe => ⟨.tfhe, 1024, 32, 65537, baseNoise, 192, 1, .standard,
      [("n", .int 630), ("k", .int 1), ("base_log", .int 7), ("level_count", .int 3)]⟩
  | .ckks => ⟨.ckks, 32768, 60, 0, baseNoise, 256, 8192, .standard,
      [("log_qp", .int 438), ("scale", .float 1099511627776.0), ("h", .int 192)]⟩
  | .bgv => ⟨.bgv, 16384, 50, 65537, baseNoise, 192, 4096, .standard, [("log_q", .int 438)]⟩
  | .bfv => ⟨.bfv, 4096, 40, 786433, baseNoise, 192, 4096, .standard,
      [("coeff_modulus", .list [.int 0xFFFFEE001, .int 0xFFFFC4001, .int 0x1FFFFE0001])]⟩

def toEntries (p : Parameters) : Entries :=
  [("scheme", .text p.scheme.tag), ("ring_dimension", .int p.ringDimension),
    ("modulus_bits", .int p.modulusBits), ("plaintext_modulus", .int p.plaintextModulus),
    ("noise_std_dev", .float p.noiseDeviation), ("security_level", .int p.securityLevel),
    ("simd_slots", .int p.simdSlots), ("growth_factors", .dict p.growth.toEntries),
    ("extra", .dict p.extra)]

/-- A digest of the record, the same however its entries are ordered. -/
def hash (p : Parameters) : Except Failure Text :=
  match Json.print .spaced (Value.dict p.toEntries).sorted with
  | .ok cs => .ok ("sha256:" ++ Sha256.hex (Utf8.encode cs))
  | .error .numeralTooLong => .error .badValue
  | .error .bytes => .error .badType

def isPowerOfTwo (n : Int) : Bool := 0 < n && Nat.pow 2 n.toNat.log2 = n.toNat

/-- Refuses a record that contradicts itself; the first fault is reported. -/
def validate (p : Parameters) : Except FieldError Unit :=
  let refuse (reason : Text) : Except FieldError Unit := .error (.bringUpFailed reason (some p.scheme.tag))
  if !isPowerOfTwo p.ringDimension then
    refuse ("ring dimension " ++ Text.ofInt p.ringDimension ++ " is not a power of two")
  else if p.modulusBits ≤ 0 then refuse "modulus bit-width must be positive"
  else if p.plaintextModulus < 0 then refuse "plaintext modulus must be non-negative"
  else if p.noiseDeviation < baseNoise then refuse "noise standard deviation below base noise 3.2"
  else if !(1 ≤ p.simdSlots && p.simdSlots ≤ p.ringDimension) then
    refuse ("SIMD slot count " ++ Text.ofInt p.simdSlots ++ " outside [1, " ++
      Text.ofInt p.ringDimension ++ "]")
  else if p.growth.least ≤ 0.0 then refuse "growth factors must be positive"
  else .ok ()

end Parameters

structure BootstrapParameters where
  baseLog : Option Int
  levelCount : Option Int
  keySize : Nat
  refreshingKeySize : Nat
  levelBudget : Option Int
  scalingFactor : Option Float
  precisionBits : Option Int

namespace BootstrapParameters

/-- The sizing of each scheme; only two define more than the key sizes. -/
def registered : Scheme → BootstrapParameters
  | .tfhe => ⟨some 25, some 2, 64, 32, none, none, none⟩
  | .ckks => ⟨none, none, 64, 32, some 3, some 1099511627776.0, some 25⟩
  | .bgv | .bfv => ⟨none, none, 64, 32, none, none, none⟩

def toEntries (b : BootstrapParameters) : Entries :=
  [("base_log", .ofOption .int b.baseLog), ("level_count", .ofOption .int b.levelCount),
    ("key_size", .int b.keySize), ("refreshing_key_size", .int b.refreshingKeySize),
    ("level_budget", .ofOption .int b.levelBudget), ("scaling_factor", .ofOption .float b.scalingFactor),
    ("precision_bits", .ofOption .int b.precisionBits)]

end BootstrapParameters

end SealedFields
