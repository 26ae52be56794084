import SealedFields.Ciphertext.Basic
import SealedFields.Parameters

/-!
Noise levels as 64-bit floats: the account that the service keeps.
-/

namespace SealedFields

def maxNoise : Float := 100.0

/-- Floats outside the range of 64-bit signed integers have no residue and count as zero. -/
def residue256 (i : Int) : UInt8 :=
  let bound := Int.ofNat (Nat.pow 2 63)
  if -bound ≤ i ∧ i < bound then UInt8.ofNat (i % 256).toNat else 0

/-- `⌊x⌋` modulo 256; zero where there is no floor. -/
def floorByte (x : Float) : UInt8 :=
  match (Number.Binary64.ofFloat x).floor? with
  | some i => residue256 i
  | none => 0

/-- `|⌊x⌋|` modulo 256; zero where there is no floor. -/
def floorMagnitudeByte (x : Float) : UInt8 :=
  match (Number.Binary64.ofFloat x).floor? with
  | some i => residue256 i.natAbs
  | none => 0

instance : NoiseArithmetic Float where
  base := baseNoise
  least := baseNoise - 1e-9
  limit := maxNoise
  add := (· + ·)
  mul := (· * ·)
  less x y := x < y
  ratio? target source := Number.Binary64.quotient? target source
  scaleByte ratio b := floorByte (b.toNat.toFloat * ratio)

namespace Ciphertext

def Fault.text : Fault Float → Text
  | .noiseTooLow noise => "noise_level " ++ Text.ofFloat noise ++ " below base noise 3.2"
  | .negativeDepth => "multiplicative_depth must be non-negative"
  | .tooFewComponents => "component_count must be >= 2"

def Fault.failure (f : Fault Float) : Failure := .rejected f.text

/-- A summary of the account, safe to log. -/
def describe (c : Ciphertext Float) : Entries :=
  [("payload_bytes", .int c.payload.length), ("noise_level", .float (Number.roundTo 4 c.noise)),
    ("depth", .int c.depth), ("size", .int c.size), ("bootstrapped", .bool c.bootstrapped)]

end Ciphertext

end SealedFields
