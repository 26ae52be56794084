import SealedFields.Value.Display

/-!
Printing JSON in ASCII: everything outside it is escaped in 16-bit units. Floats are printed with their
shortest text, and the names `NaN`, `Infinity` and `-Infinity`.
-/

namespace SealedFields.Json

inductive PrintFault where
  | numeralTooLong
  | bytes
  deriving DecidableEq, Repr

/-- How a document is laid out: what stands between items and after keys, and whether a byte string is
printed as the text that shows it. -/
structure Layout where
  itemSeparator : List Char
  keySeparator : List Char
  showsBytes : Bool

namespace Layout

def compact : Layout := ⟨[','], [':'], false⟩

def spaced : Layout := ⟨[',', ' '], [':', ' '], false⟩

/-- `spaced`, and byte strings are shown. -/
def tolerant : Layout := ⟨[',', ' '], [':', ' '], true⟩

end Layout

def unitEscapeText (n : Nat) : List Char := '\\' :: 'u' :: Text.hexDigits 4 n

def pointText : CodePoint → List Char
  | .surrogate h => unitEscapeText (0xD800 + h.val)
  | .scalar c =>
    if c = '"' then ['\\', '"']
    else if c = '\\' then ['\\', '\\']
    else if c = '\n' then ['\\', 'n']
    else if c = '\r' then ['\\', 'r']
    else if c = '\t' then ['\\', 't']
    else if c = '\x0c' then ['\\', 'f']
    else if c = '\x08' then ['\\', 'b']
    else if 0x20 ≤ c.toNat ∧ c.toNat < 0x7F then [c]
    else if c.toNat < 0x10000 then unitEscapeText c.toNat
    else
      let n := c.toNat - 0x10000
      unitEscapeText (0xD800 + n / 1024) ++ unitEscapeText (0xDC00 + n % 1024)

def stringText (t : Text) : List Char := '"' :: t.flatMap pointText ++ ['"']

def floatText (x : Float) : List Char := (Number.Binary64.ofFloat x).textWith "Infinity" "NaN"

def separated (separator : List Char) : List (List Char) → List Char
  | [] => []
  | [part] => part
  | part :: parts => part ++ separator ++ separated separator parts

mutual

def print (l : Layout) : Value → Except PrintFault (List Char)
  | .null => .ok ['n', 'u', 'l', 'l']
  | .bool true => .ok ['t', 'r', 'u', 'e']
  | .bool false => .ok ['f', 'a', 'l', 's', 'e']
  | .int i =>
    match Decimal.ofInt? i with
    | some cs => .ok cs
    | none => .error .numeralTooLong
  | .float x => .ok (floatText x)
  | .text t => .ok (stringText t)
  | .bytes bs => if l.showsBytes then .ok (stringText bs.quoted) else .error .bytes
  | .list vs => (printItems l vs).map fun parts => '[' :: separated l.itemSeparator parts ++ [']']
  | .dict es => (printEntries l es).map fun parts => '\x7b' :: separated l.itemSeparator parts ++ ['\x7d']

def printItems (l : Layout) : List Value → Except PrintFault (List (List Char))
  | [] => .ok []
  | v :: vs => do
    let part ← print l v
    let parts ← printItems l vs
    return part :: parts

def printEntries (l : Layout) : List (Text × Value) → Except PrintFault (List (List Char))
  | [] => .ok []
  | (key, v) :: es => do
    let part ← print l v
    let parts ← printEntries l es
    return (stringText key ++ l.keySeparator ++ part) :: parts

end

end SealedFields.Json
