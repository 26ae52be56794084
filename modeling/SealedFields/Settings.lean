import SealedFields.Environment
import SealedFields.Schema.Scalars

/-!
Runtime settings of the service. They are given as arguments or by environment variables, whose names
ignore case; arguments win. The constants of the ciphertext model are not settings.
-/

namespace SealedFields

structure Settings where
  environment : Text
  logLevel : Text
  /-- The scheme of requests that name none. -/
  defaultScheme : Text
  defaultSecurityLevel : Int
  workerPoolSize : Int
  maxBatchSize : Int
  batchTimeoutSeconds : Float
  keyCacheTtlSeconds : Float
  bootstrapKeyCacheTtlSeconds : Float
  maxCircuitDepth : Int
  initMaxRetries : Int
  initRetryBaseDelaySeconds : Float
  custodianMaxRetries : Int
  /-- The key that wraps key material in custody, in hexadecimal. -/
  masterKeyHex : Option Text

namespace Settings

/-- What the names of environment variables begin with, in lower case. -/
def variableStem : Text := "fhe_"

/-- The value of the setting `name`: an argument, or else the last environment variable for it. -/
def source (environment arguments : Entries) (name : Text) : Option Value :=
  match Entries.get? arguments name with
  | some v => some v
  | none => Environment.get? environment (variableStem ++ name.lower)

def given (environment arguments : Entries) (names : List Text) : Entries :=
  names.filterMap fun name => (source environment arguments name).map (name, ·)

def names : List Text := [
  "ENVIRONMENT", "LOG_LEVEL", "DEFAULT_SCHEME", "DEFAULT_SECURITY_LEVEL", "WORKER_POOL_SIZE",
  "MAX_BATCH_SIZE", "BATCH_TIMEOUT_SECONDS", "KEY_CACHE_TTL_SECONDS", "BOOTSTRAP_KEY_CACHE_TTL_SECONDS",
  "MAX_CIRCUIT_DEPTH", "INIT_MAX_RETRIES", "INIT_RETRY_BASE_DELAY_SECONDS", "CUSTODIAN_MAX_RETRIES",
  "MASTER_KEY_HEX"]

def check (es : Entries) : Checked Settings :=
  Settings.mk <$> Check.optional es "ENVIRONMENT" "development" Check.text
    <*> Check.optional es "LOG_LEVEL" "INFO" Check.text
    <*> Check.optional es "DEFAULT_SCHEME" "tfhe" Check.text
    <*> Check.optional es "DEFAULT_SECURITY_LEVEL" 192 Check.int
    <*> Check.optional es "WORKER_POOL_SIZE" 4 (Check.intFrom 1)
    <*> Check.optional es "MAX_BATCH_SIZE" 50 (Check.intFrom 1)
    <*> Check.optional es "BATCH_TIMEOUT_SECONDS" 30.0 (Check.floatAbove 0.0)
    <*> Check.optional es "KEY_CACHE_TTL_SECONDS" 3600.0 (Check.floatAbove 0.0)
    <*> Check.optional es "BOOTSTRAP_KEY_CACHE_TTL_SECONDS" 7200.0 (Check.floatAbove 0.0)
    <*> Check.optional es "MAX_CIRCUIT_DEPTH" 20 (Check.intFrom 1)
    <*> Check.optional es "INIT_MAX_RETRIES" 3 (Check.intFrom 0)
    <*> Check.optional es "INIT_RETRY_BASE_DELAY_SECONDS" 0.5 (Check.floatFrom 0.0)
    <*> Check.optional es "CUSTODIAN_MAX_RETRIES" 2 (Check.intFrom 0)
    <*> Check.optional es "MASTER_KEY_HEX" none (Check.nullable Check.text)

def load (environment arguments : Entries) : Except Failure Settings := do
  Environment.check environment
  (check (given environment arguments names)).toExcept

def toEntries (s : Settings) : Entries :=
  [("ENVIRONMENT", .text s.environment), ("LOG_LEVEL", .text s.logLevel),
    ("DEFAULT_SCHEME", .text s.defaultScheme), ("DEFAULT_SECURITY_LEVEL", .int s.defaultSecurityLevel),
    ("WORKER_POOL_SIZE", .int s.workerPoolSize), ("MAX_BATCH_SIZE", .int s.maxBatchSize),
    ("BATCH_TIMEOUT_SECONDS", .float s.batchTimeoutSeconds),
    ("KEY_CACHE_TTL_SECONDS", .float s.keyCacheTtlSeconds),
    ("BOOTSTRAP_KEY_CACHE_TTL_SECONDS", .float s.bootstrapKeyCacheTtlSeconds),
    ("MAX_CIRCUIT_DEPTH", .int s.maxCircuitDepth), ("INIT_MAX_RETRIES", .int s.initMaxRetries),
    ("INIT_RETRY_BASE_DELAY_SECONDS", .float s.initRetryBaseDelaySeconds),
    ("CUSTODIAN_MAX_RETRIES", .int s.custodianMaxRetries),
    ("MASTER_KEY_HEX", .ofOption .text s.masterKeyHex)]

def isProduction (s : Settings) : Bool := s.environment.lower = "production"

/-- The hexadecimal master key, an empty one counting as absent. -/
def masterKeyText (s : Settings) : Option Text := s.masterKeyHex.filter (!·.isEmpty)

def masterKey (s : Settings) : Except Failure (Option Bytes) :=
  match s.masterKeyText with
  | none => .ok none
  | some t =>
    match Hex.ofText? t with
    | some key => .ok (some key)
    | none => .error .badValue

def productionIssues (s : Settings) : List Text :=
  let missing : List Text :=
    if s.masterKeyText.isNone then ["CRITICAL: FHE_MASTER_KEY_HEX not set"] else []
  let verbose : List Text :=
    if s.logLevel.upper = "DEBUG" then ["WARNING: FHE_LOG_LEVEL=DEBUG in production"] else []
  if s.isProduction then missing ++ verbose else []

/-- What is wrong with the master key, if one is set. -/
def masterKeyIssues (s : Settings) : List Text :=
  match s.masterKey with
  | .ok none => []
  | .ok (some key) =>
    if key.length = 32 then [] else ["CRITICAL: FHE_MASTER_KEY_HEX must decode to 32 bytes"]
  | .error _ => ["CRITICAL: FHE_MASTER_KEY_HEX is not valid hex"]

def issues (s : Settings) : List Text := s.productionIssues ++ s.masterKeyIssues

end Settings

end SealedFields
