import SealedFields.Failure

/-!
Causes of failure as a caller outside the library states them: a family, and named parts that may be any
values. A statement with a part that the family does not have, or without one that it needs, is refused.
Where the parts have the types of `FieldError`, the report is the one of that cause.
-/

namespace SealedFields

structure Report where
  code : Value
  message : Value
  details : Value
  requestId : Value

namespace Report

/-- The parts of a family's causes by name, each with what it is when it is not stated; `none` marks a part
that has to be stated. -/
def parameters : FailureKind → List (Text × Option Value)
  | .field => [("message", none), ("code", some (.text "FHE_INTERNAL_ERROR")), ("details", some .null)]
  | .bringUp | .keyGeneration => [("reason", none), ("scheme", some .null)]
  | .unknownScheme => [("scheme", none)]
  | .malformedCiphertext => [("reason", none), ("wire_format", some .null)]
  | .decryption => [("reason", some (.text "Authentication tag mismatch"))]
  | .keyNotFound => [("identity", none), ("scheme", some .null), ("key_type", some (.text "key_pair"))]
  | .custodian => [("reason", none), ("operation", none)]
  | .unsupportedOperation => [("operation", none), ("reason", some .null)]
  | .arity => [("operation", none), ("expected", none), ("received", none)]
  | .noiseOverflow => [("noise_level", none), ("max_noise", none), ("operation", some .null)]
  | .circuitTooDeep => [("depth", none), ("max_depth", none), ("circuit_name", some .null)]
  | .circuitDependency => [("reason", none), ("wires", some .null)]
  | .circuitNotFound => [("circuit_id", none)]
  | .batchTooLarge => [("size", none), ("max_size", none)]
  | .userNotFound => [("user_id", none)]
  | .anchoring => [("reason", none), ("field_name", some .null)]
  | _ => []

/-- The request that a cause belongs to is a part of every cause. -/
def requestPart : Text := "request_id"

/-- The stated parts completed by those that need not be stated. -/
def complete? (kind : FailureKind) (stated : Entries) : Option Entries :=
  let known := parameters kind ++ [(requestPart, some .null)]
  if stated.all fun e => Entries.has known e.1 then
    known.mapM fun (name, default) => ((Entries.get? stated name).or default).map (name, ·)
  else none

inductive Piece where
  | words (t : Text)
  /-- A part as it shows by itself. -/
  | shown (part : Text)
  /-- A part as it shows inside other values. -/
  | quoted (part : Text)
  /-- A number with two decimal places. -/
  | hundredths (part : Text)
  /-- A part in parentheses, left out if it does not count as true. -/
  | remark (part : Text)

def wording : FailureKind → List Piece
  | .bringUp => [.words "Failed to initialize FHE system: ", .shown "reason"]
  | .unknownScheme => [.words "Invalid FHE scheme specified: ", .quoted "scheme"]
  | .malformedCiphertext => [.words "Invalid ciphertext format: ", .shown "reason"]
  | .decryption => [.words "Decryption operation failed: ", .shown "reason"]
  | .keyNotFound => [.words "FHE keys not found for ", .shown "identity"]
  | .keyGeneration => [.words "Failed to generate FHE keys: ", .shown "reason"]
  | .custodian => [.words "Key custodian ", .shown "operation", .words " failed: ", .shown "reason"]
  | .unsupportedOperation => [.words "Unsupported operation: ", .shown "operation", .remark "reason"]
  | .arity => [.shown "operation", .words " requires ", .shown "expected", .words " inputs, got ",
      .shown "received"]
  | .noiseOverflow => [.words "Noise level exceeded maximum threshold (", .hundredths "noise_level",
      .words " > ", .shown "max_noise", .words ")"]
  | .circuitTooDeep => [.words "Circuit depth exceeds maximum (", .shown "depth", .words " > ",
      .shown "max_depth", .words ")"]
  | .circuitDependency => [.words "Circuit dependency error: ", .shown "reason"]
  | .circuitNotFound => [.words "Circuit not found: ", .shown "circuit_id"]
  | .batchTooLarge => [.words "Batch size exceeds maximum limit (", .shown "size", .words " > ",
      .shown "max_size", .words ")"]
  | .userNotFound => [.words "User wallet not found"]
  | .anchoring => [.words "Ledger anchoring failed: ", .shown "reason"]
  | _ => []

/-- An entry of the details, under a key of its own. -/
inductive Detail where
  | always (key part : Text)
  /-- Left out if the part does not count as true. -/
  | ifTrue (key part : Text)
  /-- The items of a part in ascending order, left out if the part does not count as true. -/
  | ascending (key part : Text)

def detailsOf : FailureKind → List Detail
  | .bringUp | .keyGeneration => [.ifTrue "scheme" "scheme"]
  | .unknownScheme => [.always "scheme" "scheme"]
  | .malformedCiphertext => [.ifTrue "format" "wire_format"]
  | .keyNotFound => [.always "identity" "identity", .always "key_type" "key_type", .ifTrue "scheme" "scheme"]
  | .custodian | .unsupportedOperation => [.always "operation" "operation"]
  | .arity => [.always "operation" "operation", .always "expected" "expected", .always "received" "received"]
  | .noiseOverflow => [.always "noise_level" "noise_level", .always "max_noise" "max_noise",
      .ifTrue "operation" "operation"]
  | .circuitTooDeep => [.always "depth" "depth", .always "max_depth" "max_depth",
      .ifTrue "circuit" "circuit_name"]
  | .circuitDependency => [.ascending "wires" "wires"]
  | .circuitNotFound => [.always "circuit_id" "circuit_id"]
  | .batchTooLarge => [.always "size" "size", .always "max_size" "max_size"]
  | .userNotFound => [.always "user_id" "user_id"]
  | .anchoring => [.ifTrue "field_name" "field_name"]
  | _ => []

def codeOf : FailureKind → Text
  | .bringUp => "FHE_INIT_FAILED"
  | .unknownScheme => "FHE_INVALID_SCHEME"
  | .malformedCiphertext => "FHE_INVALID_CIPHERTEXT"
  | .decryption => "FHE_DECRYPT_FAILED"
  | .keyNotFound => "FHE_KEY_NOT_FOUND"
  | .keyGeneration => "FHE_KEYGEN_FAILED"
  | .custodian => "FHE_CUSTODIAN_FAILED"
  | .unsupportedOperation => "FHE_UNSUPPORTED_OPERATION"
  | .arity => "FHE_ARITY"
  | .noiseOverflow => "FHE_NOISE_OVERFLOW"
  | .circuitTooDeep => "FHE_CIRCUIT_TOO_DEEP"
  | .circuitDependency => "FHE_CIRCUIT_DEPENDENCY"
  | .circuitNotFound => "FHE_CIRCUIT_NOT_FOUND"
  | .batchTooLarge => "FHE_BATCH_SIZE_EXCEEDED"
  | .userNotFound => "FHE_USER_NOT_FOUND"
  | .anchoring => "FHE_LEDGER_ANCHOR_FAILED"
  | _ => "FHE_INTERNAL_ERROR"

/-- A cause of the taxonomy has the code of its family. -/
theorem codeOf_kind (e : FieldError) (h : e.kind ≠ .field) : codeOf e.kind = e.code := by
  cases e with
  | custom => exact absurd rfl h
  | _ => rfl

/-- What a value shows, unless it holds an integer that is too long for a numeral. -/
def shown (v : Value) : Except Failure Text :=
  match v.display? with
  | some t => .ok t
  | none => .error .badValue

def hundredths : Value → Except Failure Text
  | .float x => .ok (Text.ofFloatHundredths x)
  | .bool b => .ok (Text.ofFloatHundredths (if b then 1.0 else 0.0))
  | .int i =>
    match Number.Binary64.ofInt? i with
    | some x => .ok (Text.ofFloatHundredths x)
    | none => .error .overflow
  | .text _ => .error .badValue
  | .null | .bytes _ | .list _ | .dict _ => .error .badType

/-- A part, `null` if there is none. -/
def part (parts : Entries) (name : Text) : Value := (Entries.get? parts name).getD .null

def Piece.text (parts : Entries) : Piece → Except Failure Text
  | .words t => .ok t
  | .shown name => Report.shown (part parts name)
  | .quoted name =>
    match (part parts name).inner? with
    | some t => .ok t
    | none => .error .badValue
  | .hundredths name => Report.hundredths (part parts name)
  | .remark name =>
    let v := part parts name
    if v.isTruthy then do return " (" ++ (← Report.shown v) ++ ")" else .ok []

/-- The number that a value stands for where values are compared. -/
def number? : Value → Option Float
  | .float x => some x
  | .int i => some (.ofInt i)
  | .bool b => some (if b then 1.0 else 0.0)
  | _ => none

/-- Values in ascending order: texts, or numbers, or one value alone. -/
def ascending (vs : List Value) : Except Failure Value :=
  let texts := vs.filterMap fun v => match v with
    | .text t => some t
    | _ => none
  let numbers := vs.filterMap fun v => (number? v).map (·, v)
  if texts.length = vs.length then .ok (.list ((Text.sort texts).map .text))
  else if numbers.length = vs.length then
    .ok (.list ((numbers.mergeSort fun a b => !(b.1 < a.1)).map (·.2)))
  else if vs.length = 1 then .ok (.list vs)
  else .error .badType

/-- The items of a value that has items: code points, bytes, list items or keys. -/
def items? : Value → Option (List Value)
  | .text t => some (t.map fun p => .text [p])
  | .bytes bs => some (bs.map fun b => .int b.toNat)
  | .list vs => some vs
  | .dict es => some (es.map fun e => .text e.1)
  | .null | .bool _ | .int _ | .float _ => none

/-- An entry of the details, if it is not left out. -/
def Detail.entry (parts : Entries) : Detail → Except Failure Entries
  | .always key name => .ok [(key, part parts name)]
  | .ifTrue key name =>
    let v := part parts name
    .ok (if v.isTruthy then [(key, v)] else [])
  | .ascending key name =>
    let v := part parts name
    if !v.isTruthy then .ok []
    else match items? v with
      | some vs => do return [(key, ← Report.ascending vs)]
      | none => .error .badType

/-- The report on a cause of a family with the stated parts. -/
def ofParts (kind : FailureKind) (stated : Entries) : Except Failure Report :=
  match complete? kind stated with
  | none => .error .badType
  | some parts => do
    let request := part parts requestPart
    if kind = .field then
      let details := part parts "details"
      return ⟨part parts "code", part parts "message", if details.isTruthy then details else .dict [], request⟩
    else
      let message := (← (wording kind).mapM (·.text parts)).flatten
      let details := (← (detailsOf kind).mapM (·.entry parts)).flatten
      return ⟨.text (codeOf kind), .text message, .dict details, request⟩

/-- The line that a report makes: code, message, and the request it belongs to. -/
def line (r : Report) : Except Failure Text := do
  let head := "[" ++ (← shown r.code) ++ "] " ++ (← shown r.message)
  if r.requestId.isTruthy then return head ++ " (request_id: " ++ (← shown r.requestId) ++ ")"
  else return head

def missing (kind : FailureKind) (stated : List Text) : List Text :=
  ((parameters kind).filter fun p => p.2.isNone && !stated.contains p.1).map (·.1)

def complaint (kind : FailureKind) (names : List Text) : Text :=
  Text.ofString kind.name ++ ".__init__() missing " ++ Text.ofNat names.length ++
    " required positional argument" ++ (if names.length = 1 then ": " else "s: ") ++
    Text.join " and " (names.map Text.quoted)

end Report

/-- The cause of a family that is stated by a single text, and the operation that failed; `none` for a family
that needs more. -/
def FieldError.ofText? (kind : FailureKind) (said operation : Text) : Option FieldError :=
  match kind with
  | .field => some (.custom said "FHE_INTERNAL_ERROR" [])
  | .bringUp => some (.bringUpFailed said none)
  | .unknownScheme => some (.unknownScheme said)
  | .malformedCiphertext => some (.malformedCiphertext said none)
  | .decryption => some (.decryptionFailed said)
  | .keyNotFound => some (.keyNotFound said none "key_pair")
  | .keyGeneration => some (.keyGenerationFailed said none)
  | .custodian => some (.custodianFailed said operation)
  | .unsupportedOperation => some (.unsupportedOperation said none)
  | .circuitDependency => some (.circuitDependency said [])
  | .circuitNotFound => some (.circuitNotFound said)
  | .userNotFound => some (.userNotFound said)
  | .anchoring => some (.anchoringFailed said none)
  | _ => none

/-- The failure of a family that is stated by a single text, and the operation that failed. Stating a family
that needs more is a failure of its own. -/
def Failure.ofText (kind : FailureKind) (said operation : Text) : Failure :=
  match FieldError.ofText? kind said operation with
  | some e => .field e
  | none =>
    let needed := (Report.parameters kind).map (·.1)
    match Report.missing kind (needed.take 1) with
    | [] => .raised kind said
    | names => .raised .badType (Report.complaint kind names)

end SealedFields
