import SealedFields.Number.Reading
import SealedFields.Number.Shortest
import SealedFields.Value.Basic

/-!
Dynamic values as JSON documents. What JSON has no exact form for is an object with one key, which is a tag:
floats, large integers, byte strings, dictionaries (whose order counts) and text that is not well formed.
-/

namespace SealedFields.Tagged

def intTag : Text := "$int"

def floatTag : Text := "$float"

def bytesTag : Text := "$bytes"

def dictTag : Text := "$dict"

def codePointsTag : Text := "$codepoints"

/-- Integers below this magnitude are written as numbers: every reader takes them exactly. -/
def maxPlain : Nat := Nat.pow 2 53

def decimalInt (t : Text) : Int :=
  let (negative, digits) := Number.signed ((t.chars?).getD [])
  let n := Int.ofNat (Decimal.value digits)
  if negative then -n else n

def ofTagged? (tag t : Text) : Option Value :=
  if tag = intTag then some (.int (decimalInt t))
  else if tag = floatTag then (Number.floatOfText? t).map .float
  else if tag = bytesTag then (Hex.ofText? t).map .bytes
  else none

mutual

def decode : Value → Value
  | .dict [(key, .text t)] => (ofTagged? key t).getD (.dict [(key, .text t)])
  | .dict [(key, .list vs)] =>
    if key = dictTag then .dict (Entries.ofWrites (decodePairs vs)) else .dict [(key, .list (decodeAll vs))]
  | .dict es => .dict (decodeEntries es)
  | .list vs => .list (decodeAll vs)
  | v => v

def decodeAll : List Value → List Value
  | [] => []
  | v :: vs => decode v :: decodeAll vs

def decodeEntries : List (Text × Value) → List (Text × Value)
  | [] => []
  | (k, v) :: es => (k, decode v) :: decodeEntries es

def decodePairs : List Value → List (Text × Value)
  | [] => []
  | .list [.text k, v] :: ps => (k, decode v) :: decodePairs ps
  | _ :: ps => decodePairs ps

end

mutual

def encode : Value → Value
  | .int i => if i.natAbs < maxPlain then .int i else tagged intTag (.text (Text.ofInt i))
  | .float x => tagged floatTag (.text (Text.ofFloat x))
  | .bytes bs => tagged bytesTag (.text (Hex.toText bs))
  | .text t =>
    if t.isWellFormed then .text t else tagged codePointsTag (.list (t.map fun p => .int p.toNat))
  | .list vs => .list (encodeAll vs)
  | .dict es => tagged dictTag (.list (encodePairs es))
  | v => v
where
  tagged (tag : Text) (v : Value) : Value := .dict [(tag, v)]

def encodeAll : List Value → List Value
  | [] => []
  | v :: vs => encode v :: encodeAll vs

def encodePairs : List (Text × Value) → List Value
  | [] => []
  | (k, v) :: es => .list [encode (.text k), encode v] :: encodePairs es

end

mutual

/-- A record as a document: a dictionary in it is an object, since the order of a record's parts does not
count. -/
def record : Value → Value
  | .list vs => .list (recordItems vs)
  | .dict es => .dict (recordParts es)
  | v => encode v

def recordItems : List Value → List Value
  | [] => []
  | v :: vs => record v :: recordItems vs

def recordParts : List (Text × Value) → List (Text × Value)
  | [] => []
  | (k, v) :: es => (k, record v) :: recordParts es

end

end SealedFields.Tagged
