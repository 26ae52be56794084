import SealedFields.Number.Binary64

/-!
Powers of floating-point numbers with integer exponents. Whether a power is too large for a float is decided
exactly, however large the exponent is: the power is enclosed between two numbers of a few bits, and is only
written out if they leave the question open.
-/

namespace SealedFields.Number

/-- `mantissa · 2^exponent`. -/
structure Magnitude where
  mantissa : Nat
  exponent : Nat

namespace Magnitude

def one : Magnitude := ⟨1, 0⟩

def ofNat (n : Nat) : Magnitude := ⟨n, 0⟩

def mul (a b : Magnitude) : Magnitude := ⟨a.mantissa * b.mantissa, a.exponent + b.exponent⟩

/-- Trimmed mantissas have this many bits. -/
def precision : Nat := 160

def excess (a : Magnitude) : Nat := a.mantissa.log2 + 1 - precision

def trimDown (a : Magnitude) : Magnitude := ⟨a.mantissa / Nat.pow 2 a.excess, a.exponent + a.excess⟩

def trimUp (a : Magnitude) : Magnitude :=
  ⟨(a.mantissa + (Nat.pow 2 a.excess - 1)) / Nat.pow 2 a.excess, a.exponent + a.excess⟩

/-- `a^k` for an exponent of at most `bits` bits, trimmed after every product. -/
def pow (trim : Magnitude → Magnitude) (a : Magnitude) : (bits k : Nat) → Magnitude
  | 0, _ => one
  | bits + 1, k =>
    let half := pow trim a bits (k / 2)
    let square := trim (half.mul half)
    if k % 2 = 1 then trim (square.mul a) else square

/-- Whether `c · b ≤ a`, all of them above zero. The leading bits decide unless they are close to each other. -/
def reaches (c : Nat) (b a : Magnitude) : Bool :=
  let low := c.log2 + (b.mantissa.log2 + b.exponent)
  let high := a.mantissa.log2 + a.exponent
  if low + 2 ≤ high then true
  else if high < low then false
  else c * b.mantissa * Nat.pow 2 (b.exponent - a.exponent) ≤ a.mantissa * Nat.pow 2 (a.exponent - b.exponent)

end Magnitude

/-- The least number that is rounded to infinity. -/
def leastInfinite : Nat := (Nat.pow 2 54 - 1) * Nat.pow 2 970

/-- Whether `(num / den)^k` is rounded to infinity. -/
def isPowerInfinite (num den k : Nat) : Bool :=
  let least (n : Nat) := Magnitude.pow .trimDown (.ofNat n) (k.log2 + 1) k
  let most (n : Nat) := Magnitude.pow .trimUp (.ofNat n) (k.log2 + 1) k
  if Magnitude.reaches leastInfinite (most den) (least num) then true
  else if !Magnitude.reaches leastInfinite (least den) (most num) then false
  else leastInfinite * Nat.pow den k ≤ Nat.pow num k

inductive PowerFault where
  | zeroToNegative
  | tooLarge
  deriving DecidableEq

/-- Powers up to this exponent are computed exactly before they are rounded. -/
def maxExactPower : Nat := 10000

/-- `x` raised to the integer `n`, which counts as the float nearest to it. Powers and exponents that are infinite once
they are rounded are too large. -/
def power (x : Float) (n : Int) : Except PowerFault Float :=
  if n = 0 then .ok 1.0
  else if (Binary64.ofInt? n).isNone then .error .tooLarge
  else match Binary64.ofFloat x with
    | .nan => .ok x
    | .infinite negative =>
      let sign := negative && n % 2 = 1
      .ok (if n > 0 then Float.ofBits (if sign then 0xFFF0000000000000 else 0x7FF0000000000000)
        else Binary64.nearest sign 0 1)
    | .finite negative m e =>
      let sign := negative && n % 2 = 1
      if m = 0 then
        if n < 0 then .error .zeroToNegative else .ok (Binary64.nearest sign 0 1)
      else
        let high := (Int.ofNat m.log2 + 1 + e) * n
        let low := (Int.ofNat m.log2 + e) * n
        if min high low ≥ 1024 then .error .tooLarge
        else if max high low < -1100 then .ok (Binary64.nearest sign 0 1)
        else
          let (up, down) := Binary64.powerOfTwo e
          let k := n.natAbs
          let (num, den) := if n > 0 then (m * up, down) else (down, m * up)
          let g := num.gcd den
          if k ≤ maxExactPower then
            let (num, den) := (Nat.pow (num / g) k, Nat.pow (den / g) k)
            if Binary64.nearestBits num den < 2047 * Nat.pow 2 52 then .ok (Binary64.nearest sign num den)
            else .error .tooLarge
          else if isPowerInfinite (num / g) (den / g) (Binary64.rounded k) then .error .tooLarge
          -- The exact power would have millions of digits.
          else .ok (Float.pow x (Binary64.nearest (n < 0) k 1))

end SealedFields.Number
