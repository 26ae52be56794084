import SealedFields.Number.Rounding

/-!
The 64-bit floating-point format: taking a number apart, and rounding an exact quotient to the nearest
representable number. Everything that must be exact (text, floors, quotients, powers) goes through here
and is computed on naturals.
-/

namespace SealedFields.Number

/-- A floating-point number taken apart; `finite negative m e` is `±m · 2^e`. -/
inductive Binary64 where
  | nan
  | infinite (negative : Bool)
  | finite (negative : Bool) (mantissa : Nat) (exponent : Int)
  deriving DecidableEq, Inhabited

namespace Binary64

def ofBits (bits : Nat) : Binary64 :=
  let negative := bits / Nat.pow 2 63 % 2 = 1
  let exponent := bits / Nat.pow 2 52 % 2048
  let fraction := bits % Nat.pow 2 52
  if exponent = 2047 then
    if fraction = 0 then .infinite negative else .nan
  else if exponent = 0 then .finite negative fraction (-1074)
  else .finite negative (fraction + Nat.pow 2 52) (Int.ofNat exponent - 1075)

def ofFloat (x : Float) : Binary64 := ofBits x.toBits.toNat

def powerOfTwo (e : Int) : Nat × Nat := (Nat.pow 2 e.toNat, Nat.pow 2 (-e).toNat)

/-- The magnitude bits of the number nearest to `num / den`, ties to even; too large is infinity. -/
def nearestBits (num den : Nat) : Nat :=
  if num = 0 ∨ den = 0 then 0
  else
    let guess : Int := Int.ofNat num.log2 - Int.ofNat den.log2 - 52
    let scaled (e : Int) : Nat × Nat :=
      let (up, down) := powerOfTwo e
      (num * down, den * up)
    let (n, d) := scaled guess
    let e := max (if n / d < Nat.pow 2 52 then guess - 1 else guess) (-1074)
    let (n, d) := scaled e
    min ((e + 1074).toNat * Nat.pow 2 52 + roundDiv n d) (2047 * Nat.pow 2 52)

/-- The number nearest to `±num / den`. -/
def nearest (negative : Bool) (num den : Nat) : Float :=
  Float.ofBits (UInt64.ofNat (nearestBits num den + if negative then Nat.pow 2 63 else 0))

/-- The number nearest to an integer, unless that is infinite. -/
def ofInt? (i : Int) : Option Float :=
  if nearestBits i.natAbs 1 < 2047 * Nat.pow 2 52 then some (nearest (i < 0) i.natAbs 1) else none

/-- The number nearest to `a / b` for `b ≠ 0`, unless that is infinite. -/
def quotient? (a b : Int) : Option Float :=
  if nearestBits a.natAbs b.natAbs < 2047 * Nat.pow 2 52 then
    some (nearest (decide (a < 0) != decide (b < 0)) a.natAbs b.natAbs)
  else none

def floor? : Binary64 → Option Int
  | .finite negative m e =>
    let (up, down) := powerOfTwo e
    let magnitude : Int := Int.ofNat (m * up)
    some (Int.fdiv (if negative then -magnitude else magnitude) (Int.ofNat down))
  | _ => none

def truncate? : Binary64 → Option Int
  | .finite negative m e =>
    let (up, down) := powerOfTwo e
    let magnitude : Int := Int.ofNat (m * up / down)
    some (if negative then -magnitude else magnitude)
  | _ => none

/-- A natural number as the float nearest to it; there is one unless that is infinite. -/
def rounded (n : Nat) : Nat := ((ofFloat (nearest false n 1)).truncate?.getD 0).natAbs

def isIntegral : Binary64 → Bool
  | .finite _ m e => let (up, down) := powerOfTwo e; m * up % down = 0
  | _ => false

/-- A finite number rounded to `places` decimal places, ties to even, in units of the last place. -/
def roundPlaces? (places : Nat) : Binary64 → Option (Bool × Nat)
  | .finite negative m e =>
    let (up, down) := powerOfTwo e
    some (negative, roundDiv (m * up * Nat.pow 10 places) down)
  | _ => none

end Binary64

/-- `x` rounded to `places` decimal places; infinities and NaN are kept. -/
def roundTo (places : Nat) (x : Float) : Float :=
  match (Binary64.ofFloat x).roundPlaces? places with
  | some (negative, units) => Binary64.nearest negative units (Nat.pow 10 places)
  | none => x

end SealedFields.Number
