import SealedFields.Number.Binary64
import SealedFields.Number.Decimal

/-!
The text of a floating-point number: the fewest digits that read back as the same number, and of those
the nearest to it.
-/

namespace SealedFields.Number

/-- The decimal exponent of `num / den`: the greatest `k` with `10^k ≤ num / den`. -/
def decimalExponent (num den : Nat) : Int :=
  let reaches (k : Int) : Bool := Nat.pow 10 k.toNat * den ≤ num * Nat.pow 10 (-k).toNat
  let guess := (Int.ofNat num.log2 - Int.ofNat den.log2) * 30103 / 100000
  if reaches (guess + 1) then guess + 1
  else if reaches guess then guess
  else guess - 1

/-- `m · 2^e` on the decimal grid of `10^k`: the grid point that rounds to it, if one does. Of the two
neighbours the nearer is taken, of two equally near the even one. -/
def onGrid? (m : Nat) (e k : Int) : Option Nat :=
  let (up, down) := Binary64.powerOfTwo e
  let pow := Nat.pow 10 k.toNat
  let frac := Nat.pow 10 (-k).toNat
  let below := if m = Nat.pow 2 52 ∧ e ≠ -1074 then 1 else 2
  let least := (4 * m - below) * up * frac
  let greatest := (4 * m + 2) * up * frac
  let inside (d : Nat) : Bool :=
    let point := 4 * d * pow * down
    if m % 2 = 0 then least ≤ point && point ≤ greatest else least < point && point < greatest
  let num := m * up * frac
  let den := down * pow
  let near := roundDiv num den
  let far := if near * den ≤ num then near + 1 else near - 1
  if inside near then some near else if inside far then some far else none

/-- The first of the grids with 1, 2, … digits that has a point; `n` digits are tried next. -/
def shortestFrom (m : Nat) (e exponent : Int) : (fuel n : Nat) → Nat × Int
  | 0, _ => (m, 0)
  | fuel + 1, n =>
    let k := exponent - Int.ofNat n + 1
    match onGrid? m e k with
    | some d => (d, k)
    | none => shortestFrom m e exponent fuel (n + 1)

/-- Digits and exponent `(d, k)` of the shortest decimal `d · 10^k` that reads back as `m · 2^e`. -/
def shortest (m : Nat) (e : Int) : Nat × Int :=
  let (up, down) := Binary64.powerOfTwo e
  shortestFrom m e (decimalExponent (m * up) down) 18 1

def dropZeros (cs : List Char) : List Char × Nat :=
  let kept := (cs.reverse.dropWhile (· == '0')).reverse
  (kept, cs.length - kept.length)

/-- Decimal exponents from -5 down and from 16 up are written with an exponent of two digits or more;
all other numbers are written positionally, with at least one digit after the point. -/
def layOut (digits : List Char) (point : Int) : List Char :=
  let exponent := point - 1
  if exponent < -4 ∨ 16 ≤ exponent then
    let mantissa := match digits with
      | [] => ['0']
      | [d] => [d]
      | d :: ds => d :: '.' :: ds
    mantissa ++ ['e', if exponent < 0 then '-' else '+'] ++ Decimal.padded 2 exponent.natAbs
  else if point ≤ 0 then '0' :: '.' :: List.replicate point.natAbs '0' ++ digits
  else
    let whole := point.toNat
    let before := digits.take whole
    let after := digits.drop whole
    before ++ List.replicate (whole - before.length) '0' ++ '.' :: (if after.isEmpty then ['0'] else after)

/-- The text of a number taken apart, with the given names for what is not finite. -/
def Binary64.textWith (infinity nan : String) : Binary64 → List Char
  | .nan => nan.toList
  | .infinite negative => (if negative then ['-'] else []) ++ infinity.toList
  | .finite negative m e =>
    let sign := if negative then ['-'] else []
    if m = 0 then sign ++ ['0', '.', '0']
    else
      let (d, k) := shortest m e
      let (digits, dropped) := dropZeros (Decimal.ofNat d)
      sign ++ layOut digits (Int.ofNat digits.length + k + Int.ofNat dropped)

end SealedFields.Number

namespace SealedFields.Text

def ofFloat (x : Float) : Text := ofChars ((Number.Binary64.ofFloat x).textWith "inf" "nan")

/-- A number with two decimal places, ties to even. -/
def ofFloatHundredths (x : Float) : Text :=
  match (Number.Binary64.ofFloat x).roundPlaces? 2 with
  | some (negative, units) =>
    ofChars ((if negative then ['-'] else []) ++ Decimal.ofNat (units / 100) ++
      '.' :: Decimal.padded 2 (units % 100))
  | none => ofFloat x

end SealedFields.Text
