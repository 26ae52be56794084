import SealedFields.Number.Reading
import SealedFields.Value.Basic

/-!
Reading JSON. Beyond the standard, the names `NaN`, `Infinity` and `-Infinity` are numbers, a repeated key
keeps its last value, and an escape may name a lone surrogate half. Each function returns what it read
and the rest of the input.
-/

namespace SealedFields.Json

inductive ReadFault where
  | malformed
  | numeralTooLong
  deriving DecidableEq, Repr

abbrev Read (α : Type) := Except ReadFault (α × List Char)

def isSpace (c : Char) : Bool := c = ' ' || c = '\t' || c = '\n' || c = '\r'

def skipSpace (cs : List Char) : List Char := cs.dropWhile isSpace

def hexUnit? (a b c d : Char) : Option Nat := do
  let a ← Hex.digit? a
  let b ← Hex.digit? b
  let c ← Hex.digit? c
  let d ← Hex.digit? d
  return ((a * 16 + b) * 16 + c) * 16 + d

def shortEscape? (c : Char) : Option Char :=
  if c = '"' ∨ c = '\\' ∨ c = '/' then some c
  else if c = 'b' then some '\x08'
  else if c = 'f' then some '\x0c'
  else if c = 'n' then some '\n'
  else if c = 'r' then some '\r'
  else if c = 't' then some '\t'
  else none

def isHighHalf (n : Nat) : Bool := 0xD800 ≤ n && n < 0xDC00

def isLowHalf (n : Nat) : Bool := 0xDC00 ≤ n && n < 0xE000

/-- The scalar value that a high and a low surrogate half stand for. -/
def joinHalves (high low : Nat) : Char := Char.ofNat (0x10000 + (high - 0xD800) * 1024 + (low - 0xDC00))

/-- What an escape for the 16-bit number `n` stands for, given what follows it: a high half joins a low
half that is written directly after it. -/
def unitEscape (n : Nat) (cs : List Char) : CodePoint × List Char :=
  match cs with
  | '\\' :: 'u' :: a :: b :: c :: d :: rest =>
    match hexUnit? a b c d with
    | some m => if isHighHalf n && isLowHalf m then (.scalar (joinHalves n m), rest) else (.ofUnit n, cs)
    | none => (.ofUnit n, cs)
  | _ => (.ofUnit n, cs)

def stringBody : (fuel : Nat) → List Char → Read Text
  | 0, _ => .error .malformed
  | fuel + 1, cs =>
    match cs with
    | [] => .error .malformed
    | '"' :: cs => .ok ([], cs)
    | '\\' :: 'u' :: a :: b :: c :: d :: cs =>
      match hexUnit? a b c d with
      | none => .error .malformed
      | some n =>
        let (p, cs) := unitEscape n cs
        (stringBody fuel cs).map fun (t, rest) => (p :: t, rest)
    | '\\' :: c :: cs =>
      match shortEscape? c with
      | none => .error .malformed
      | some c => (stringBody fuel cs).map fun (t, rest) => (.scalar c :: t, rest)
    | c :: cs =>
      if c.toNat < 0x20 ∨ c = '\\' then .error .malformed
      else (stringBody fuel cs).map fun (t, rest) => (.scalar c :: t, rest)

/-- The digits of a whole number: a zero stands alone. -/
def wholeDigits? : List Char → Option (List Char × List Char)
  | '0' :: cs => some (['0'], cs)
  | cs =>
    let (digits, rest) := Number.digitRun cs
    if digits.isEmpty then none else some (digits, rest)

/-- A point with at least one digit after it; without digits the point is not part of the numeral. -/
def fractionDigits : List Char → List Char × List Char
  | '.' :: cs =>
    let (digits, rest) := Number.digitRun cs
    if digits.isEmpty then ([], '.' :: cs) else (digits, rest)
  | cs => ([], cs)

/-- An exponent with at least one digit; without digits its mark is not part of the numeral. -/
def exponentPart (cs : List Char) : Option Int × List Char :=
  match cs with
  | c :: rest =>
    if c = 'e' ∨ c = 'E' then
      let (negative, rest) := Number.signed rest
      let (digits, rest) := Number.digitRun rest
      if digits.isEmpty then (none, cs)
      else
        let n := Int.ofNat (Decimal.value digits)
        (some (if negative then -n else n), rest)
    else (none, cs)
  | [] => (none, cs)

/-- A numeral after its sign: an integer, or a float if it has a fraction or an exponent. -/
def magnitude (negative : Bool) (cs : List Char) : Read Value :=
  match wholeDigits? cs with
  | none => .error .malformed
  | some (whole, rest) =>
    let (fraction, rest) := fractionDigits rest
    let (exponent, rest) := exponentPart rest
    if fraction.isEmpty && exponent.isNone then
      if whole.length > Decimal.maxDigits then .error .numeralTooLong
      else
        let n := Int.ofNat (Decimal.value whole)
        .ok (.int (if negative then -n else n), rest)
    else
      let k := exponent.getD 0 - Int.ofNat fraction.length
      .ok (.float (Number.ofDecimal negative (Decimal.value (whole ++ fraction)) k), rest)

def number : List Char → Read Value
  | '-' :: cs => magnitude true cs
  | cs => magnitude false cs

def after? : (word : List Char) → List Char → Option (List Char)
  | [], cs => some cs
  | _ :: _, [] => none
  | w :: word, c :: cs => if w = c then after? word cs else none

def words : List (String × Value) := [
  ("null", .null), ("true", .bool true), ("false", .bool false),
  ("NaN", .float (Float.ofBits 0x7FF8000000000000)),
  ("Infinity", .float (Float.ofBits 0x7FF0000000000000)),
  ("-Infinity", .float (Float.ofBits 0xFFF0000000000000))]

def word? (cs : List Char) : Option (Value × List Char) :=
  words.findSome? fun (w, v) => (after? w.toList cs).map fun rest => (v, rest)

mutual

def value : (fuel : Nat) → List Char → Read Value
  | 0, _ => .error .malformed
  | fuel + 1, cs =>
    match cs with
    | '"' :: cs => (stringBody (cs.length + 1) cs).map fun (t, rest) => (.text t, rest)
    | '[' :: cs =>
      match skipSpace cs with
      | ']' :: rest => .ok (.list [], rest)
      | cs => (items fuel cs).map fun (vs, rest) => (.list vs, rest)
    | '\x7b' :: cs =>
      match skipSpace cs with
      | '\x7d' :: rest => .ok (.dict [], rest)
      | cs => (entries fuel cs).map fun (es, rest) => (.dict (Entries.ofWrites es), rest)
    | cs =>
      match word? cs with
      | some found => .ok found
      | none => number cs

/-- The items of a list that has at least one, up to its closing bracket. -/
def items : (fuel : Nat) → List Char → Read (List Value)
  | 0, _ => .error .malformed
  | fuel + 1, cs =>
    match value fuel cs with
    | .error e => .error e
    | .ok (v, rest) =>
      match skipSpace rest with
      | ']' :: rest => .ok ([v], rest)
      | ',' :: rest => (items fuel (skipSpace rest)).map fun (vs, rest) => (v :: vs, rest)
      | _ => .error .malformed

/-- The entries of an object that has at least one, up to its closing brace. -/
def entries : (fuel : Nat) → List Char → Read (List (Text × Value))
  | 0, _ => .error .malformed
  | fuel + 1, cs =>
    match cs with
    | '"' :: cs =>
      match stringBody (cs.length + 1) cs with
      | .error e => .error e
      | .ok (key, rest) =>
        match skipSpace rest with
        | ':' :: rest =>
          match value fuel (skipSpace rest) with
          | .error e => .error e
          | .ok (v, rest) =>
            match skipSpace rest with
            | '\x7d' :: rest => .ok ([(key, v)], rest)
            | ',' :: rest => (entries fuel (skipSpace rest)).map fun (es, rest) => ((key, v) :: es, rest)
            | _ => .error .malformed
        | _ => .error .malformed
    | _ => .error .malformed

end

/-- A document: one value with space around it. Every value takes at least one character, so the length
bounds the nesting. -/
def read (cs : List Char) : Except ReadFault Value :=
  match value (2 * cs.length + 2) (skipSpace cs) with
  | .error e => .error e
  | .ok (v, rest) => if (skipSpace rest).isEmpty then .ok v else .error .malformed

end SealedFields.Json
