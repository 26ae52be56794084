import SealedFields.Schema.Checked
import SealedFields.Number.Reading
import SealedFields.Text.Utf8
import SealedFields.Scheme

/-!
Checks of single values. They are lenient: numbers and conditions may also be given as text.
-/

namespace SealedFields.Check

/-- The characters of a text, or of a byte string in UTF-8. -/
def characters? : Value → Option (List Char)
  | .text t => t.chars?
  | .bytes bs => Utf8.decode bs
  | _ => none

/-- A text, of any code points, or a byte string in UTF-8. -/
def text : Check Text
  | .text t => .ok t
  | v => .ofOption? ((characters? v).map Text.ofChars)

def trimChars (cs : List Char) : List Char := ((Text.ofChars cs).trim.chars?).getD []

/-- Drops underscores if there are any and each stands alone between other characters. -/
def dropUnderscores? (cs : List Char) : Option (List Char) :=
  if cs.head? = some '_' ∨ cs.getLast? = some '_' ∨ (cs.zip cs.tail).contains ('_', '_') ∨ !cs.contains '_'
  then none
  else some (cs.filter (· != '_'))

/-- What follows the leading zeros of an integer numeral, be it a digit or a minus; one zero is kept where a
point or nothing follows. -/
def dropZeros? : List Char → Option (List Char)
  | '0' :: cs => go '0' cs
  | c :: cs => if Decimal.isDigit c then some (c :: cs) else none
  | [] => none
where
  go (last : Char) : List Char → Option (List Char)
    | [] => some [last]
    | '.' :: cs => some (last :: '.' :: cs)
    | c :: cs =>
      if c = '0' ∨ c = '_' then go c cs
      else if Decimal.isDigit c ∨ c = '-' then some (c :: cs)
      else none

/-- An integer numeral without a fraction that consists of zeros; a point alone is not such a fraction. -/
def dropFraction (cs : List Char) : List Char :=
  let whole := cs.takeWhile (· != '.')
  let fraction := cs.drop (whole.length + 1)
  if !fraction.isEmpty ∧ fraction.all (· = '0') then whole else cs

/-- An integer numeral without leading zeros, a fraction of zeros and single underscores. -/
def bareNumeral? (cs : List Char) : Option (List Char) := do
  let cs := dropFraction (← dropZeros? cs)
  return (dropUnderscores? cs).getD cs

/-- An optional minus and digits without a leading zero. -/
def plainInt? (cs : List Char) : Option Int :=
  let (negative, digits) := match cs with
    | '-' :: ds => (true, ds)
    | ds => (false, ds)
  if digits.isEmpty || !digits.all Decimal.isDigit || (digits.head? = some '0' && digits.length > 1) ||
      cs.length > Decimal.maxDigits then none
  else
    let n := Int.ofNat (Decimal.value digits)
    some (if negative then -n else n)

/-- An integer written as text: blanks around it, a sign, leading zeros, a fraction of zeros and single
underscores are allowed. A minus may also follow leading zeros, but not a sign. -/
def intOfChars? (cs : List Char) : Option Int :=
  match trimChars cs with
  | '+' :: '-' :: _ => none
  | '+' :: cs => (bareNumeral? cs).bind plainInt?
  | '-' :: cs => (bareNumeral? cs).bind fun cs => plainInt? ('-' :: cs)
  | cs => (bareNumeral? cs).bind plainInt?

/-- An integer, or a condition, a whole number as float, or a text that stands for one. -/
def int : Check Int
  | .int i => .ok i
  | .bool b => .ok (if b then 1 else 0)
  | .float x =>
    let parts := Number.Binary64.ofFloat x
    if parts.isIntegral && x.abs < 9223372036854775808.0 then .ofOption? parts.truncate? else .wrong
  | v => .ofOption? ((characters? v).bind intOfChars?)

/-- A float written as text: blanks around it, or single underscores inside it, are allowed. -/
def floatOfChars? (cs : List Char) : Option Float :=
  (Number.readFloat (trimChars cs)).orElse fun _ => (dropUnderscores? cs).bind Number.readFloat

/-- A float, or an integer within its range, a condition, or a text that stands for one. -/
def float : Check Float
  | .float x => .ok x
  | .int i => .ofOption? (Number.Binary64.ofInt? i)
  | .bool b => .ok (if b then 1.0 else 0.0)
  | v => .ofOption? ((characters? v).bind floatOfChars?)

def trueWords : List String := ["1", "on", "t", "true", "y", "yes"]

def falseWords : List String := ["0", "off", "f", "false", "n", "no"]

/-- A condition in words, in any case. -/
def boolOfChars? (cs : List Char) : Option Bool :=
  let word := cs.map Number.lowerAscii
  if trueWords.any (·.toList = word) then some true
  else if falseWords.any (·.toList = word) then some false
  else none

/-- A condition, or zero or one, or a word that stands for one. -/
def bool : Check Bool
  | .bool b => .ok b
  | .int i => if i = 0 then .ok false else if i = 1 then .ok true else .wrong
  | .float x => if x == 0.0 then .ok false else if x == 1.0 then .ok true else .wrong
  | v => .ofOption? ((characters? v).bind boolOfChars?)

def intFrom (least : Int) : Check Int := fun v =>
  (int v).andThen fun i => if least ≤ i then .ok i else .wrong

/-- A float from `least` on. The bound accepts what compares greater or equal, so that it refuses NaN; a bound that refused
what compares less would let NaN pass. Infinity is accepted. -/
def floatFrom (least : Float) : Check Float := fun v =>
  (float v).andThen fun x => if x ≥ least then .ok x else .wrong

def floatAbove (bound : Float) : Check Float := fun v =>
  (float v).andThen fun x => if x > bound then .ok x else .wrong

def oneOf (choices : List (Text × α)) : Check α
  | .text t => .ofOption? (Entries.get? choices t)
  | _ => .wrong

/-- A scheme tag; an unknown one stops the whole check. -/
def scheme : Check Scheme
  | .null => .wrong
  | v =>
    match Scheme.parse v with
    | .ok s => .ok s
    | .error (.field e) => .stopped (.field e)
    | .error _ => .wrong

def securityLevels : List Int := [128, 192, 256]

def securityLevel : Check Int := fun v =>
  (int v).andThen fun i => if securityLevels.contains i then .ok i else .wrong

end SealedFields.Check
