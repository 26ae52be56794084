import SealedFields.Value.Display

/-!
Why a request fails. `FieldError` is the service's own taxonomy: each cause carries what is needed to
report it and has a code, a message and details. `Failure` adds the failures that are not part of the
taxonomy, and `FailureKind` orders all of them so that a policy can speak of a whole family at once.
-/

namespace SealedFields

/-- A cause of failure of the field encryption service. Messages never hold key material or plaintext. -/
inductive FieldError where
  /-- A failure that is reported as given. -/
  | custom (message code : Text) (details : Entries)
  | bringUpFailed (reason : Text) (scheme : Option Text)
  | unknownScheme (tag : Text)
  | malformedCiphertext (reason : Text) (wireFormat : Option Text)
  | decryptionFailed (reason : Text)
  | keyNotFound (identity : Text) (scheme : Option Text) (keyType : Text)
  | keyGenerationFailed (reason : Text) (scheme : Option Text)
  | custodianFailed (reason operation : Text)
  | unsupportedOperation (operation : Text) (reason : Option Text)
  | wrongArity (operation expected : Text) (received : Int)
  | noiseOverflow (level limit : Float) (operation : Option Text)
  | circuitTooDeep (depth limit : Int) (circuit : Option Text)
  | circuitDependency (reason : Text) (wires : List Text)
  | circuitNotFound (circuit : Text)
  | batchTooLarge (size limit : Int)
  | userNotFound (user : Text)
  | anchoringFailed (reason : Text) (field : Option Text)
  deriving Inhabited

namespace FieldError

def code : FieldError → Text
  | .custom _ code _ => code
  | .bringUpFailed .. => "FHE_INIT_FAILED"
  | .unknownScheme .. => "FHE_INVALID_SCHEME"
  | .malformedCiphertext .. => "FHE_INVALID_CIPHERTEXT"
  | .decryptionFailed .. => "FHE_DECRYPT_FAILED"
  | .keyNotFound .. => "FHE_KEY_NOT_FOUND"
  | .keyGenerationFailed .. => "FHE_KEYGEN_FAILED"
  | .custodianFailed .. => "FHE_CUSTODIAN_FAILED"
  | .unsupportedOperation .. => "FHE_UNSUPPORTED_OPERATION"
  | .wrongArity .. => "FHE_ARITY"
  | .noiseOverflow .. => "FHE_NOISE_OVERFLOW"
  | .circuitTooDeep .. => "FHE_CIRCUIT_TOO_DEEP"
  | .circuitDependency .. => "FHE_CIRCUIT_DEPENDENCY"
  | .circuitNotFound .. => "FHE_CIRCUIT_NOT_FOUND"
  | .batchTooLarge .. => "FHE_BATCH_SIZE_EXCEEDED"
  | .userNotFound .. => "FHE_USER_NOT_FOUND"
  | .anchoringFailed .. => "FHE_LEDGER_ANCHOR_FAILED"

/-- An optional remark, an empty one counting as absent. -/
def remark (t : Option Text) : Option Text := t.filter (!·.isEmpty)

def message : FieldError → Text
  | .custom message _ _ => message
  | .bringUpFailed reason _ => "Failed to initialize FHE system: " ++ reason
  | .unknownScheme tag => "Invalid FHE scheme specified: " ++ tag.quoted
  | .malformedCiphertext reason _ => "Invalid ciphertext format: " ++ reason
  | .decryptionFailed reason => "Decryption operation failed: " ++ reason
  | .keyNotFound identity _ _ => "FHE keys not found for " ++ identity
  | .keyGenerationFailed reason _ => "Failed to generate FHE keys: " ++ reason
  | .custodianFailed reason operation => "Key custodian " ++ operation ++ " failed: " ++ reason
  | .unsupportedOperation operation reason =>
    "Unsupported operation: " ++ operation ++
      match remark reason with
      | some r => " (" ++ r ++ ")"
      | none => []
  | .wrongArity operation expected received =>
    operation ++ " requires " ++ expected ++ " inputs, got " ++ Text.ofInt received
  | .noiseOverflow level limit _ =>
    "Noise level exceeded maximum threshold (" ++ Text.ofFloatHundredths level ++ " > " ++
      Text.ofFloat limit ++ ")"
  | .circuitTooDeep depth limit _ =>
    "Circuit depth exceeds maximum (" ++ Text.ofInt depth ++ " > " ++ Text.ofInt limit ++ ")"
  | .circuitDependency reason _ => "Circuit dependency error: " ++ reason
  | .circuitNotFound circuit => "Circuit not found: " ++ circuit
  | .batchTooLarge size limit =>
    "Batch size exceeds maximum limit (" ++ Text.ofInt size ++ " > " ++ Text.ofInt limit ++ ")"
  | .userNotFound _ => "User wallet not found"
  | .anchoringFailed reason _ => "Ledger anchoring failed: " ++ reason

/-- One entry, left out if its text is absent or empty. -/
def optionalEntry (key : Text) (t : Option Text) : Entries :=
  match remark t with
  | some t => [(key, .text t)]
  | none => []

def details : FieldError → Entries
  | .custom _ _ details => details
  | .bringUpFailed _ scheme => optionalEntry "scheme" scheme
  | .unknownScheme tag => [("scheme", .text tag)]
  | .malformedCiphertext _ wireFormat => optionalEntry "format" wireFormat
  | .decryptionFailed _ => []
  | .keyNotFound identity scheme keyType =>
    ("identity", .text identity) :: ("key_type", .text keyType) :: optionalEntry "scheme" scheme
  | .keyGenerationFailed _ scheme => optionalEntry "scheme" scheme
  | .custodianFailed _ operation => [("operation", .text operation)]
  | .unsupportedOperation operation _ => [("operation", .text operation)]
  | .wrongArity operation expected received =>
    [("operation", .text operation), ("expected", .text expected), ("received", .int received)]
  | .noiseOverflow level limit operation =>
    ("noise_level", .float level) :: ("max_noise", .float limit) :: optionalEntry "operation" operation
  | .circuitTooDeep depth limit circuit =>
    ("depth", .int depth) :: ("max_depth", .int limit) :: optionalEntry "circuit" circuit
  | .circuitDependency _ wires =>
    if wires.isEmpty then [] else [("wires", .list ((Text.sort wires).map .text))]
  | .circuitNotFound circuit => [("circuit_id", .text circuit)]
  | .batchTooLarge size limit => [("size", .int size), ("max_size", .int limit)]
  | .userNotFound user => [("user_id", .text user)]
  | .anchoringFailed _ field => optionalEntry "field_name" field

/-- The line that reports an error: code, message, and the request it belongs to. -/
def report (e : FieldError) (requestId : Option Text) : Text :=
  "[" ++ e.code ++ "] " ++ e.message ++
    match remark requestId with
    | some r => " (request_id: " ++ r ++ ")"
    | none => []

def codeRegistry : List (Text × Text) := [
  ("FHE_INIT_FAILED", "Failed to initialize FHE system"),
  ("FHE_INVALID_SCHEME", "Invalid FHE scheme specified"),
  ("FHE_INVALID_CIPHERTEXT", "Invalid ciphertext format"),
  ("FHE_DECRYPT_FAILED", "Decryption operation failed"),
  ("FHE_KEY_NOT_FOUND", "FHE keys not found for user"),
  ("FHE_KEYGEN_FAILED", "Failed to generate FHE keys"),
  ("FHE_CUSTODIAN_FAILED", "Key custodian operation failed"),
  ("FHE_UNSUPPORTED_OPERATION", "Unsupported homomorphic operation"),
  ("FHE_ARITY", "Wrong number of operation inputs"),
  ("FHE_NOISE_OVERFLOW", "Noise level exceeded maximum threshold"),
  ("FHE_CIRCUIT_TOO_DEEP", "Circuit depth exceeds maximum"),
  ("FHE_CIRCUIT_DEPENDENCY", "Circuit wiring references an unbound wire"),
  ("FHE_CIRCUIT_NOT_FOUND", "Circuit not found"),
  ("FHE_BATCH_SIZE_EXCEEDED", "Batch size exceeds maximum limit"),
  ("FHE_USER_NOT_FOUND", "User wallet not found"),
  ("FHE_LEDGER_ANCHOR_FAILED", "Ledger anchoring failed"),
  ("FHE_INTERNAL_ERROR", "Internal error")]

def describeCode? (code : Text) : Option Text := Entries.get? codeRegistry code

end FieldError

/-- The families of failures. Each but `failure` belongs to a wider one. -/
inductive FailureKind where
  | failure
  /-- Every cause of the taxonomy. -/
  | field
  | bringUp | unknownScheme | malformedCiphertext | decryption | keyNotFound | keyGeneration
  | custodian | unsupportedOperation | arity | noiseOverflow | circuitTooDeep | circuitDependency
  | circuitNotFound | batchTooLarge | userNotFound | anchoring
  | badValue | invalidRequest | unicode | unencodable | undecodable
  | badType | noAttribute | assertion | endOfInput | outOfMemory
  | lookup | missingKey | badIndex
  | arithmetic | overflow | zeroDivision | floatingPoint
  | running | notImplemented | tooDeep
  | system | timeout | connection | connectionReset | connectionRefused | connectionAborted | brokenPipe
  | fileNotFound | fileExists | permission | interrupted
  | inauthentic
  /-- The signal that ends an iteration. -/
  | endOfIteration
  /-- Not a failure of the work but its abandonment; no other family holds it. -/
  | cancelled
  deriving DecidableEq, Inhabited

namespace FailureKind

def parent? : FailureKind → Option FailureKind
  | .failure | .cancelled => none
  | .bringUp | .unknownScheme | .malformedCiphertext | .decryption | .keyNotFound | .keyGeneration
  | .custodian | .unsupportedOperation | .arity | .noiseOverflow | .circuitTooDeep | .circuitDependency
  | .circuitNotFound | .batchTooLarge | .userNotFound | .anchoring => some .field
  | .invalidRequest | .unicode => some .badValue
  | .unencodable | .undecodable => some .unicode
  | .missingKey | .badIndex => some .lookup
  | .overflow | .zeroDivision | .floatingPoint => some .arithmetic
  | .notImplemented | .tooDeep => some .running
  | .timeout | .connection | .fileNotFound | .fileExists | .permission | .interrupted => some .system
  | .connectionReset | .connectionRefused | .connectionAborted | .brokenPipe => some .connection
  | .field | .badValue | .badType | .noAttribute | .assertion | .endOfInput | .outOfMemory | .lookup
  | .arithmetic | .running | .system | .inauthentic | .endOfIteration => some .failure

/-- Families are nested at most this deep. -/
def maxNesting : Nat := 4

def isWithin (k family : FailureKind) : Bool := climb maxNesting k
where
  climb : Nat → FailureKind → Bool
    | 0, k => k == family
    | n + 1, k => k == family || (match k.parent? with
      | some wider => climb n wider
      | none => false)

/-- The caller's own mistakes, which are reported at once and need no retry. -/
def callerErrors : List FailureKind :=
  [.unknownScheme, .malformedCiphertext, .unsupportedOperation, .arity, .circuitDependency, .circuitTooDeep,
    .batchTooLarge]

def name : FailureKind → String
  | .failure => "Exception"
  | .field => "FheFieldError"
  | .bringUp => "InitializationFailedError"
  | .unknownScheme => "InvalidSchemeError"
  | .malformedCiphertext => "InvalidCiphertextFormatError"
  | .decryption => "DecryptionFailedError"
  | .keyNotFound => "KeyNotFoundError"
  | .keyGeneration => "KeyGenerationError"
  | .custodian => "CustodianError"
  | .unsupportedOperation => "UnsupportedOperationError"
  | .arity => "ArityError"
  | .noiseOverflow => "NoiseOverflowError"
  | .circuitTooDeep => "CircuitTooDeepError"
  | .circuitDependency => "CircuitDependencyError"
  | .circuitNotFound => "CircuitNotFoundError"
  | .batchTooLarge => "BatchSizeExceededError"
  | .userNotFound => "UserNotFoundError"
  | .anchoring => "LedgerAnchorError"
  | .badValue => "ValueError"
  | .invalidRequest => "ValidationError"
  | .unicode => "UnicodeError"
  | .unencodable => "UnicodeEncodeError"
  | .undecodable => "UnicodeDecodeError"
  | .badType => "TypeError"
  | .noAttribute => "AttributeError"
  | .assertion => "AssertionError"
  | .endOfInput => "EOFError"
  | .outOfMemory => "MemoryError"
  | .lookup => "LookupError"
  | .missingKey => "KeyError"
  | .badIndex => "IndexError"
  | .arithmetic => "ArithmeticError"
  | .overflow => "OverflowError"
  | .zeroDivision => "ZeroDivisionError"
  | .floatingPoint => "FloatingPointError"
  | .running => "RuntimeError"
  | .notImplemented => "NotImplementedError"
  | .tooDeep => "RecursionError"
  | .system => "OSError"
  | .timeout => "TimeoutError"
  | .connection => "ConnectionError"
  | .connectionReset => "ConnectionResetError"
  | .connectionRefused => "ConnectionRefusedError"
  | .connectionAborted => "ConnectionAbortedError"
  | .brokenPipe => "BrokenPipeError"
  | .fileNotFound => "FileNotFoundError"
  | .fileExists => "FileExistsError"
  | .permission => "PermissionError"
  | .interrupted => "InterruptedError"
  | .inauthentic => "InvalidTag"
  | .endOfIteration => "StopIteration"
  | .cancelled => "CancelledError"

def all : List FailureKind :=
  [.field, .bringUp, .unknownScheme, .malformedCiphertext, .decryption, .keyNotFound, .keyGeneration,
    .custodian, .unsupportedOperation, .arity, .noiseOverflow, .circuitTooDeep, .circuitDependency,
    .circuitNotFound, .batchTooLarge, .userNotFound, .anchoring, .failure, .badValue, .invalidRequest,
    .unicode, .unencodable, .undecodable, .badType, .noAttribute, .assertion, .endOfInput, .outOfMemory,
    .lookup, .missingKey, .badIndex, .arithmetic, .overflow, .zeroDivision, .floatingPoint, .running,
    .notImplemented, .tooDeep, .system, .timeout, .connection, .connectionReset, .connectionRefused,
    .connectionAborted, .brokenPipe, .fileNotFound, .fileExists, .permission, .interrupted, .inauthentic,
    .endOfIteration, .cancelled]

def ofName? (t : Text) : Option FailureKind := all.find? fun k => Text.ofString k.name = t

end FailureKind

def FieldError.kind : FieldError → FailureKind
  | .custom .. => .field
  | .bringUpFailed .. => .bringUp
  | .unknownScheme .. => .unknownScheme
  | .malformedCiphertext .. => .malformedCiphertext
  | .decryptionFailed .. => .decryption
  | .keyNotFound .. => .keyNotFound
  | .keyGenerationFailed .. => .keyGeneration
  | .custodianFailed .. => .custodian
  | .unsupportedOperation .. => .unsupportedOperation
  | .wrongArity .. => .arity
  | .noiseOverflow .. => .noiseOverflow
  | .circuitTooDeep .. => .circuitTooDeep
  | .circuitDependency .. => .circuitDependency
  | .circuitNotFound .. => .circuitNotFound
  | .batchTooLarge .. => .batchTooLarge
  | .userNotFound .. => .userNotFound
  | .anchoringFailed .. => .anchoring

inductive Failure where
  /-- A cause of the taxonomy. -/
  | field (e : FieldError)
  /-- A request that does not validate, with the places that are wrong. -/
  | invalidRequest (places : List Text)
  /-- An argument that the library refuses, with its reason. -/
  | rejected (reason : Text)
  /-- A part that was closed before it was asked. -/
  | closed (part : Text)
  /-- A run of retries that was allowed no attempt. -/
  | noAttempt
  /-- A failure of the work itself, or of a function that a caller supplied. -/
  | raised (kind : FailureKind) (text : Text)
  /-- A failure of such work that has no text: asking for it fails in turn. -/
  | untold (kind why : FailureKind) (reason : Text)
  deriving Inhabited

namespace Failure

def kind : Failure → FailureKind
  | .field e => e.kind
  | .invalidRequest _ => .invalidRequest
  | .rejected _ => .badValue
  | .closed _ | .noAttempt => .running
  | .raised kind _ | .untold kind .. => kind

/-- What the failure says about itself, if it can be told; a missing key is quoted. -/
def told : Failure → Except Failure Text
  | .field e => .ok (e.report none)
  | .invalidRequest places => .ok (Text.join ", " places)
  | .rejected reason => .ok reason
  | .closed part => .ok (part ++ " is closed")
  | .noAttempt => .ok "unreachable"
  | .raised .missingKey text => .ok text.quoted
  | .raised _ text => .ok text
  | .untold _ why reason => .error (.raised why reason)

/-- What is put down for the failure where nothing may fail any more. -/
def text (f : Failure) : Text :=
  match f.told with
  | .ok t => t
  | .error _ => "<exception str() failed>"

/-- What a call that can be suspended makes of the failure: it cannot pass on the end of an iteration. -/
def ofSuspendable : Failure → Failure
  | .raised .endOfIteration _ | .untold .endOfIteration .. => .raised .running "coroutine raised StopIteration"
  | f => f

/-- An integer that no numeral is written for. -/
def numeralTooLong : Failure :=
  .rejected ("Exceeds the limit (4300 digits) for integer string conversion; " ++
    "use sys.set_int_max_str_digits() to increase the limit")

def badValue : Failure := .raised .badValue []

def badType : Failure := .raised .badType []

def overflow : Failure := .raised .overflow []

def missingKey : Failure := .raised .missingKey []

def unencodable : Failure := .raised .unencodable []

def cancelled : Failure := .raised .cancelled []

end Failure

end SealedFields
