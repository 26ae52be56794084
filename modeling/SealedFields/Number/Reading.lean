import SealedFields.Number.Binary64
import SealedFields.Number.Decimal
import SealedFields.Bytes

/-!
Numbers read from text. A float is a decimal numeral with optional fraction and exponent, or a name of
infinity or NaN in any case, rounded once to the nearest representable number.
-/

namespace SealedFields.Number

/-- The number nearest to `±m · 10^k`; exponents far outside the range need no exact power. -/
def ofDecimal (negative : Bool) (m : Nat) (k : Int) : Float :=
  let magnitude := Int.ofNat (m.log2 * 30103 / 100000) + k
  if m = 0 ∨ magnitude < -400 then Binary64.nearest negative 0 1
  else if magnitude > 400 then Binary64.nearest negative (Nat.pow 2 1100) 1
  else Binary64.nearest negative (m * Nat.pow 10 k.toNat) (Nat.pow 10 (-k).toNat)

def digitRun (cs : List Char) : List Char × List Char :=
  (cs.takeWhile Decimal.isDigit, cs.dropWhile Decimal.isDigit)

def signed : List Char → Bool × List Char
  | '-' :: cs => (true, cs)
  | '+' :: cs => (false, cs)
  | cs => (false, cs)

def lowerAscii (c : Char) : Char := if 'A' ≤ c ∧ c ≤ 'Z' then Char.ofNat (c.toNat + 32) else c

/-- An exponent part, `none` if there is an exponent mark without digits. -/
def exponent? : List Char → Option Int
  | [] => some 0
  | c :: cs =>
    if lowerAscii c = 'e' then
      let (negative, cs) := signed cs
      let (digits, rest) := digitRun cs
      if digits.isEmpty || !rest.isEmpty then none
      else
        let n := Int.ofNat (Decimal.value digits)
        some (if negative then -n else n)
    else none

/-- A float without blanks or underscores: `.5`, `5.` and `1e3` are complete numerals. -/
def readFloat (cs : List Char) : Option Float :=
  let (negative, cs) := signed cs
  let name := cs.map lowerAscii
  if name = "inf".toList ∨ name = "infinity".toList then
    some (Binary64.nearest negative (Nat.pow 2 1100) 1)
  else if name = "nan".toList then some (Float.ofBits 0x7FF8000000000000)
  else
    let (whole, rest) := digitRun cs
    let (fraction, rest) := match rest with
      | '.' :: cs => digitRun cs
      | _ => ([], rest)
    if whole.isEmpty && fraction.isEmpty then none
    else (exponent? rest).map fun e =>
      ofDecimal negative (Decimal.value (whole ++ fraction)) (e - Int.ofNat fraction.length)

/-- An integer numeral of at most `Decimal.maxDigits` digits. -/
def readInt (cs : List Char) : Option Int :=
  let (negative, cs) := signed cs
  if cs.isEmpty || !cs.all Decimal.isDigit || cs.length > Decimal.maxDigits then none
  else
    let n := Int.ofNat (Decimal.value cs)
    some (if negative then -n else n)

/-- Single underscores between digits are dropped; any other underscore makes the numeral unreadable. -/
def joinDigits : (afterDigit : Bool) → List Char → Option (List Char)
  | _, [] => some []
  | afterDigit, '_' :: c :: cs =>
    if afterDigit && Decimal.isDigit c then (joinDigits true cs).map (c :: ·) else none
  | _, c :: cs =>
    if c = '_' then none else (joinDigits (Decimal.isDigit c) cs).map (c :: ·)

/-- A digit of any script as an ASCII digit, any other ASCII character as it is. -/
def asciiNumeral? (p : CodePoint) : Option Char :=
  match p.decimal? with
  | some d => some (Decimal.digit d)
  | none => if p.isBlank then some ' ' else p.scalar?.filter (·.toNat < 128)

/-- The characters of a numeral written by hand: blanks around it, digits of any script, and single
underscores between digits are allowed. -/
def looseNumeral? (t : Text) : Option (List Char) :=
  (t.trim.mapM asciiNumeral?).bind (joinDigits false)

def floatOfText? (t : Text) : Option Float := (looseNumeral? t).bind readFloat

def intOfText? (t : Text) : Option Int := (looseNumeral? t).bind readInt

/-- The characters of an ASCII byte string without the ASCII blanks at either end. -/
def asciiNumeral (bs : Bytes) : Option (List Char) :=
  if bs.all (·.toNat < 128) then
    let t := Text.ofChars (bs.map fun b => Char.ofNat b.toNat)
    ((t.trimBy fun p => p.isBlank).chars?).bind (joinDigits false)
  else none

def floatOfBytes? (bs : Bytes) : Option Float := (asciiNumeral bs).bind readFloat

/-- An integer written by hand in ASCII bytes. -/
def intOfBytes? (bs : Bytes) : Option Int := (asciiNumeral bs).bind readInt

end SealedFields.Number
