import SealedFields.Base64
import SealedFields.Json.Printer
import SealedFields.Json.Reader
import SealedFields.Ciphertext.FloatNoise
import SealedFields.Schema.Scalars

/-!
Ciphertexts as text. Both wire formats are a JSON record in Base64. The serialized one holds the whole
account; the compressed one drops the flags and keeps noise to three places, rounded down.
-/

namespace SealedFields.Wire

inductive Format where
  | serialized
  | compressed
  deriving DecidableEq, Inhabited

def Format.name : Format → Text
  | .serialized => "serialized"
  | .compressed => "compressed"

/-- Noise in the compressed format is counted in units of this fraction. -/
def noiseScale : Nat := 1000

def hexText (bs : Bytes) : Text := "0x" ++ Hex.toText bs

/-- Bytes from hexadecimal text, marked or not. -/
def bytesOfHex? (t : Text) : Option Bytes :=
  Hex.ofText? (if t.startsWith "0x" || t.startsWith "0X" then t.drop 2 else t)

/-- A float as a record holds it: a finite whole number is written without a fraction. -/
def number (x : Float) : Value :=
  let parts := Number.Binary64.ofFloat x
  match parts.isIntegral, parts.truncate? with
  | true, some i => .int i
  | _, _ => .float x

def envelope (record : Entries) : Except Failure Text :=
  match Json.print .compact (.dict record) with
  | .ok cs => .ok (Text.ofChars (Base64.encode (Utf8.encode cs)))
  | .error .numeralTooLong => .error .badValue
  | .error .bytes => .error .badType

def serialize (c : Ciphertext Float) : Except Failure Text :=
  envelope [("data", .text (hexText c.payload)), ("noise", number c.noise), ("depth", .int c.depth),
    ("size", .int c.size), ("bootstrapped", .bool c.bootstrapped)]

/-- Noise in whole units of the compressed format, rounded down. -/
def noiseUnits (noise : Float) : Except Failure Int :=
  match Number.Binary64.ofFloat (noise * noiseScale.toFloat) with
  | .nan => .error .badValue
  | .infinite _ => .error .overflow
  | x => .ok (x.floor?.getD 0)

def compress (c : Ciphertext Float) : Except Failure Text := do
  let units ← noiseUnits c.noise
  envelope [("d", .text (hexText c.payload)), ("n", .int units), ("p", .int c.depth), ("s", .int c.size)]

def notAnEnvelope (cause : Text) : Text := cause ++ ": not base64(JSON)"

def openText (t : Text) : Except Text Entries :=
  match t.strip.chars? with
  | none => .error (notAnEnvelope "ValueError")
  | some cs =>
    if cs.any (·.toNat ≥ 128) then .error (notAnEnvelope "ValueError")
    else match Base64.decode cs with
      | none => .error (notAnEnvelope "Error")
      | some bs =>
        match Utf8.decode bs with
        | none => .error (notAnEnvelope "UnicodeDecodeError")
        | some json =>
          match Json.read json with
          | .error .malformed => .error (notAnEnvelope "JSONDecodeError")
          | .error .numeralTooLong => .error (notAnEnvelope "ValueError")
          | .ok (.dict es) => .ok es
          | .ok _ => .error "record is not a JSON object"

/-- The record in an envelope that is given as text or as its UTF-8 bytes. -/
def openEnvelope (v : Value) : Except Text Entries :=
  match v with
  | .text t => openText t
  | .bytes bs =>
    match Utf8.decode bs with
    | some cs => openText (Text.ofChars cs)
    | none => .error "envelope is not UTF-8"
  | v => .error ("expected str, got " ++ Text.ofString v.typeName)

/-- What a wire says, before it is checked to be a ciphertext. -/
structure Record where
  payload : Bytes
  noise : Float
  depth : Int
  size : Int
  bootstrapped : Bool

def checkHex : Check Bytes := fun v => (Check.text v).andThen fun t => .ofOption? (bytesOfHex? t)

def serializedRecord (es : Entries) : Checked Record :=
  Record.mk <$> Check.required es "data" checkHex
    <*> Check.required es "noise" (Check.floatFrom (baseNoise - 1e-9))
    <*> Check.required es "depth" (Check.intFrom 0)
    <*> Check.required es "size" (Check.intFrom Ciphertext.freshSize)
    <*> Check.optional es "bootstrapped" false Check.bool

/-- The record of the compressed format, its noise still in units. -/
structure CompressedRecord where
  payload : Bytes
  units : Int
  depth : Int
  size : Int

def compressedRecord (es : Entries) : Checked CompressedRecord :=
  CompressedRecord.mk <$> Check.required es "d" checkHex
    <*> Check.required es "n" (Check.intFrom 0)
    <*> Check.required es "p" (Check.intFrom 0)
    <*> Check.required es "s" (Check.intFrom Ciphertext.freshSize)

def refuse (f : Format) (reason : Text) : Failure := .field (.malformedCiphertext reason (some f.name))

def readRecord (f : Format) (check : Entries → Checked α) (v : Value) : Except Failure α :=
  match openEnvelope v with
  | .error reason => .error (refuse f reason)
  | .ok es =>
    match check es with
    | .ok a => .ok a
    | .bad places => .error (refuse f
        ("invalid or missing fields: " ++ Text.join ", " (Checked.placeTexts places)))
    | .stopped e => .error e

def Record.ciphertext (f : Format) (r : Record) : Except Failure (Ciphertext Float) :=
  (Ciphertext.ofParts r.payload r.noise r.depth r.size r.bootstrapped false).mapError
    fun fault => refuse f fault.text

def deserialize (v : Value) : Except Failure (Ciphertext Float) := do
  (← readRecord .serialized serializedRecord v).ciphertext .serialized

def decompress (v : Value) : Except Failure (Ciphertext Float) := do
  let r ← readRecord .compressed compressedRecord v
  match Number.Binary64.quotient? r.units noiseScale with
  | none => .error .overflow
  | some noise => Record.ciphertext .compressed ⟨r.payload, noise, r.depth, r.size, false⟩

def write (f : Format) (c : Ciphertext Float) : Except Failure Text :=
  match f with
  | .serialized => serialize c
  | .compressed => compress c

def read (f : Format) (t : Text) : Except Failure (Ciphertext Float) :=
  match f with
  | .serialized => deserialize (.text t)
  | .compressed => decompress (.text t)

end SealedFields.Wire
