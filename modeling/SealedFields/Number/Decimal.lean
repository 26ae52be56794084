import SealedFields.Text.Digits

/-!
Decimal numerals: writing naturals and integers, and reading back a run of digits.
-/

namespace SealedFields.Decimal

def digit (n : Nat) : Char := Char.ofNat (48 + n)

/-- The digits of `n` in front of `rest`. -/
def onto (n : Nat) (rest : List Char) : List Char :=
  if n < 10 then digit n :: rest else onto (n / 10) (digit (n % 10) :: rest)
  termination_by n
  decreasing_by omega

def ofNat (n : Nat) : List Char := onto n []

def ofInt : Int → List Char
  | .ofNat n => ofNat n
  | .negSucc n => '-' :: ofNat (n + 1)

def value (cs : List Char) : Nat := cs.foldl (fun n c => n * 10 + (c.toNat - 48)) 0

def isDigit (c : Char) : Bool := '0' ≤ c && c ≤ '9'

/-- At least `width` digits, filled up with zeros on the left. -/
def padded (width n : Nat) : List Char :=
  let ds := ofNat n
  List.replicate (width - ds.length) '0' ++ ds

/-- A numeral longer than this many digits is neither written nor read. The power of ten that it stands for is
not to be computed while a term is checked. -/
@[irreducible] def maxDigits : Nat := 4300

/-- The numeral of an integer, unless it is too long. -/
def ofInt? (i : Int) : Option (List Char) :=
  if i.natAbs < Nat.pow 10 maxDigits then some (ofInt i) else none

end SealedFields.Decimal

namespace SealedFields.Text

def ofNat (n : Nat) : Text := ofChars (Decimal.ofNat n)

def ofInt (i : Int) : Text := ofChars (Decimal.ofInt i)

end SealedFields.Text
