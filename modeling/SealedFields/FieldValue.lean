import SealedFields.Json.Printer
import SealedFields.Json.Reader
import SealedFields.Number.Reading
import SealedFields.Failure
import SealedFields.Text.Utf8

/-!
Field values as plaintext bytes. The name of the data type decides: a number is a 64-bit float, least
significant byte first; a string is UTF-8; a condition is one byte; a large integer is its bytes, most
significant first; a value of any other type is compact JSON.
-/

namespace SealedFields.FieldValue

inductive Encoding where
  | number
  | string
  | boolean
  | bigint
  | json
  deriving DecidableEq

def Encoding.ofName (t : Text) : Encoding :=
  if t = "number" then .number
  else if t = "string" then .string
  else if t = "boolean" then .boolean
  else if t = "bigint" then .bigint
  else .json

def toFloat : Value → Except Failure Float
  | .float x => .ok x
  | .bool b => .ok (if b then 1.0 else 0.0)
  | .int i =>
    match Number.Binary64.ofInt? i with
    | some x => .ok x
    | none => .error .overflow
  | .text t =>
    match Number.floatOfText? t with
    | some x => .ok x
    | none => .error .badValue
  | .bytes bs =>
    match Number.floatOfBytes? bs with
    | some x => .ok x
    | none => .error .badValue
  | .null | .list _ | .dict _ => .error .badType

def isNegativeNumeral : Value → Bool
  | .text t => ((Number.looseNumeral? t).bind List.head?) == some '-'
  | .bytes bs => ((Number.asciiNumeral bs).bind List.head?) == some '-'
  | _ => false

/-- The bits of NaN with a minus sign, which a float does not tell from NaN without one. -/
def negativeNan : Nat := 0xFFF8000000000000

/-- The bits of the float that a value stands for; a numeral for NaN keeps its sign. -/
def toFloatBits (v : Value) : Except Failure Nat := do
  let x ← toFloat v
  return if x.isNaN && isNegativeNumeral v then negativeNan else x.toBits.toNat

def toInt : Value → Except Failure Int
  | .int i => .ok i
  | .bool b => .ok (if b then 1 else 0)
  | .float x =>
    match Number.Binary64.ofFloat x with
    | .nan => .error .badValue
    | .infinite _ => .error .overflow
    | x => .ok (x.truncate?.getD 0)
  | .text t =>
    match Number.intOfText? t with
    | some i => .ok i
    | none => .error .badValue
  | .bytes bs =>
    match Number.intOfBytes? bs with
    | some i => .ok i
    | none => .error .badValue
  | .null | .list _ | .dict _ => .error .badType

/-- The base-256 digits of `n`, most significant first, without leading zeros. -/
def minimalBytes (n : Nat) : Bytes := go n []
where
  go (n : Nat) (rest : Bytes) : Bytes :=
    if n < 256 then UInt8.ofNat n :: rest else go (n / 256) (UInt8.ofNat (n % 256) :: rest)
  termination_by n
  decreasing_by omega

def prepare (v : Value) (dataType : Text) : Except Failure Bytes :=
  match Encoding.ofName dataType with
  | .number => (toFloatBits v).map (Bytes.littleEndian 8)
  | .string =>
    match v.display? with
    | none => .error .badValue
    | some t =>
      match t.utf8? with
      | some bs => .ok bs
      | none => .error .unencodable
  | .boolean => .ok [if v.isTruthy then 1 else 0]
  | .bigint => do
    let i ← toInt v
    if i < 0 then .error (.rejected "bigint values must be non-negative") else return minimalBytes i.toNat
  | .json =>
    match Json.print .compact v with
    | .ok cs => .ok (Utf8.encode cs)
    | .error .numeralTooLong => .error .badValue
    | .error .bytes => .error .badType

def notAValue (dataType cause : Text) : FieldError :=
  .decryptionFailed ("plaintext is not a valid " ++ dataType ++ " value (" ++ cause ++ ")")

/-- The value of a plaintext. Bytes that hold none are what decryption under a wrong key gives. -/
def convert (plaintext : Bytes) (dataType : Text) : Except FieldError Value :=
  match Encoding.ofName dataType with
  | .number =>
    if plaintext.length < 8 then .error (notAValue dataType "error")
    else .ok (.float (Float.ofBits (UInt64.ofNat (Bytes.toNat (plaintext.take 8).reverse))))
  | .string =>
    match Utf8.decode plaintext with
    | some cs => .ok (.text (Text.ofChars cs))
    | none => .error (notAValue dataType "UnicodeDecodeError")
  | .boolean => .ok (.bool (plaintext.head? == some 1))
  | .bigint => .ok (.int (Bytes.toNat plaintext))
  | .json =>
    match Utf8.decode plaintext with
    | none => .error (notAValue dataType "UnicodeDecodeError")
    | some cs =>
      match Json.read cs with
      | .ok v => .ok v
      | .error .malformed => .error (notAValue dataType "JSONDecodeError")
      | .error .numeralTooLong => .error (notAValue dataType "ValueError")

end SealedFields.FieldValue
