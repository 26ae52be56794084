import SealedFields.Ciphertext.Wire

/-!
What callers send to the service and what it answers. Every request is checked before anything is done.
-/

namespace SealedFields

def version : Text := "1.0.0"

structure Metadata where
  scheme : Scheme
  securityLevel : Int
  noiseLevel : Float
  bootstrappable : Bool
  /-- Milliseconds of Unix time. -/
  timestamp : Int
  version : Text
  depth : Option Int
  size : Option Int
  encoding : Wire.Format

def Wire.checkFormat : Check Wire.Format :=
  Check.oneOf [("serialized", .serialized), ("compressed", .compressed)]

namespace Metadata

def check : Check Metadata := Check.record fun es =>
  Metadata.mk <$> Check.required es "scheme" Check.scheme
    <*> Check.required es "security_level" Check.securityLevel
    <*> Check.required es "noise_level" Check.float
    <*> Check.optional es "bootstrappable" false Check.bool
    <*> Check.required es "timestamp" Check.int
    <*> Check.optional es "version" SealedFields.version Check.text
    <*> Check.optional es "depth" none (Check.nullable Check.int)
    <*> Check.optional es "size" none (Check.nullable Check.int)
    <*> Check.optional es "encoding" .serialized Wire.checkFormat

def toEntries (m : Metadata) : Entries :=
  [("scheme", .text m.scheme.tag), ("security_level", .int m.securityLevel),
    ("noise_level", .float m.noiseLevel), ("bootstrappable", .bool m.bootstrappable),
    ("timestamp", .int m.timestamp), ("version", .text m.version), ("depth", .ofOption .int m.depth),
    ("size", .ofOption .int m.size), ("encoding", .text m.encoding.name)]

end Metadata

structure EncryptionRequest where
  fieldName : Text
  value : Value
  dataType : Text
  scheme : Option Scheme
  securityLevel : Option Int
  allowBootstrapping : Bool
  storeOnChain : Bool

def EncryptionRequest.check : Check EncryptionRequest := Check.record fun es =>
  EncryptionRequest.mk <$> Check.required es "field_name" Check.text
    <*> Check.required es "value" Check.any
    <*> Check.required es "data_type" Check.text
    <*> Check.optional es "scheme" none (Check.nullable Check.scheme)
    <*> Check.optional es "security_level" none (Check.nullable Check.securityLevel)
    <*> Check.optional es "allow_bootstrapping" false Check.bool
    <*> Check.optional es "store_on_chain" false Check.bool

def EncryptionRequest.toEntries (r : EncryptionRequest) : Entries :=
  [("field_name", .text r.fieldName), ("value", r.value), ("data_type", .text r.dataType),
    ("scheme", .ofOption (fun s => .text (Scheme.tag s)) r.scheme),
    ("security_level", .ofOption .int r.securityLevel),
    ("allow_bootstrapping", .bool r.allowBootstrapping), ("store_on_chain", .bool r.storeOnChain)]

structure EncryptedField where
  fieldName : Text
  encryptedValue : Text
  metadata : Metadata
  publicKeyHash : Text
  transactionReference : Option Text
  anchorError : Option Text

def EncryptedField.check : Check EncryptedField := Check.record fun es =>
  EncryptedField.mk <$> Check.required es "field_name" Check.text
    <*> Check.required es "encrypted_value" Check.text
    <*> Check.required es "metadata" Metadata.check
    <*> Check.required es "public_key_hash" Check.text
    <*> Check.optional es "transaction_reference" none (Check.nullable Check.text)
    <*> Check.optional es "anchor_error" none (Check.nullable Check.text)

def EncryptedField.toEntries (f : EncryptedField) : Entries :=
  [("field_name", .text f.fieldName), ("encrypted_value", .text f.encryptedValue),
    ("metadata", .dict f.metadata.toEntries), ("public_key_hash", .text f.publicKeyHash),
    ("transaction_reference", .ofOption .text f.transactionReference),
    ("anchor_error", .ofOption .text f.anchorError)]

structure DecryptionRequest where
  fieldName : Text
  encryptedValue : Text
  metadata : Metadata
  dataType : Text
  verify : Bool

def DecryptionRequest.check : Check DecryptionRequest := Check.record fun es =>
  DecryptionRequest.mk <$> Check.required es "field_name" Check.text
    <*> Check.required es "encrypted_value" Check.text
    <*> Check.required es "metadata" Metadata.check
    <*> Check.required es "original_data_type" Check.text
    <*> Check.optional es "verify" false Check.bool

def DecryptionRequest.toEntries (r : DecryptionRequest) : Entries :=
  [("field_name", .text r.fieldName), ("encrypted_value", .text r.encryptedValue),
    ("metadata", .dict r.metadata.toEntries), ("original_data_type", .text r.dataType),
    ("verify", .bool r.verify)]

structure OperationRequest where
  operation : Text
  inputs : List Text
  scheme : Option Scheme
  autoBootstrap : Bool
  rotationAmount : Int

def OperationRequest.check : Check OperationRequest := Check.record fun es =>
  OperationRequest.mk <$> Check.required es "type" Check.text
    <*> Check.required es "inputs" (Check.list Check.text)
    <*> Check.optional es "scheme" none (Check.nullable Check.scheme)
    <*> Check.optional es "auto_bootstrap" false Check.bool
    <*> Check.optional es "rotation_amount" 1 Check.int

def OperationRequest.toEntries (r : OperationRequest) : Entries :=
  [("type", .text r.operation), ("inputs", .list (r.inputs.map .text)),
    ("scheme", .ofOption (fun s => .text (Scheme.tag s)) r.scheme), ("auto_bootstrap", .bool r.autoBootstrap),
    ("rotation_amount", .int r.rotationAmount)]

structure ComputationResult where
  result : Text
  operation : Text
  noiseLevel : Float
  bootstrapped : Bool

/-- A computation's result as it is reported, with the time it took in milliseconds. -/
def ComputationResult.check : Check (ComputationResult × Float) := Check.record fun es =>
  (fun result operation time noise bootstrapped => (⟨result, operation, noise, bootstrapped⟩, time))
    <$> Check.required es "result" Check.text
    <*> Check.required es "operation_type" Check.text
    <*> Check.required es "computation_time_ms" Check.float
    <*> Check.required es "noise_level" Check.float
    <*> Check.required es "bootstrapped" Check.bool

def ComputationResult.toEntries (r : ComputationResult) : Entries :=
  [("result", .text r.result), ("operation_type", .text r.operation), ("noise_level", .float r.noiseLevel),
    ("bootstrapped", .bool r.bootstrapped)]

structure BatchEncryption where
  fields : List EncryptionRequest
  commonScheme : Option Scheme
  packed : Bool
  compressed : Bool

def BatchEncryption.check : Check BatchEncryption := Check.record fun es =>
  BatchEncryption.mk <$> Check.required es "fields" (Check.list EncryptionRequest.check)
    <*> Check.optional es "common_scheme" none (Check.nullable Check.scheme)
    <*> Check.optional es "packed_encryption" false Check.bool
    <*> Check.optional es "compression_enabled" false Check.bool

inductive ErrorHandling where
  | skip
  | fail
  deriving DecidableEq

def ErrorHandling.name : ErrorHandling → Text
  | .skip => "skip"
  | .fail => "fail"

structure BatchDecryption where
  fields : List DecryptionRequest
  parallel : Bool
  errorHandling : ErrorHandling

def BatchDecryption.check : Check BatchDecryption := Check.record fun es =>
  BatchDecryption.mk <$> Check.required es "fields" (Check.list DecryptionRequest.check)
    <*> Check.optional es "parallel_processing" true Check.bool
    <*> Check.optional es "error_handling" .fail (Check.oneOf [("skip", .skip), ("fail", .fail)])

def BatchDecryption.toEntries (r : BatchDecryption) : Entries :=
  [("fields", .list (r.fields.map fun f => .dict f.toEntries)), ("parallel_processing", .bool r.parallel),
    ("error_handling", .text r.errorHandling.name)]

structure DecryptionFailure where
  fieldName : Text
  code : Text
  message : Text

def DecryptionFailure.check : Check DecryptionFailure := Check.record fun es =>
  DecryptionFailure.mk <$> Check.required es "field_name" Check.text
    <*> Check.required es "code" Check.text
    <*> Check.required es "message" Check.text

def DecryptionFailure.toEntries (f : DecryptionFailure) : Entries :=
  [("field_name", .text f.fieldName), ("code", .text f.code), ("message", .text f.message)]

structure BatchDecryptionResult where
  values : Entries
  failures : List DecryptionFailure

def BatchDecryptionResult.check : Check BatchDecryptionResult := Check.record fun es =>
  BatchDecryptionResult.mk <$> Check.optional es "values" [] Check.dictionary
    <*> Check.optional es "failures" [] (Check.list DecryptionFailure.check)

structure PackedFields where
  fieldNames : List Text
  dataTypes : List Text
  encryptedValue : Text
  metadata : Metadata
  publicKeyHash : Text

def PackedFields.check : Check PackedFields := Check.record fun es =>
  PackedFields.mk <$> Check.required es "field_names" (Check.list Check.text)
    <*> Check.required es "data_types" (Check.list Check.text)
    <*> Check.required es "encrypted_value" Check.text
    <*> Check.required es "metadata" Metadata.check
    <*> Check.required es "public_key_hash" Check.text

def PackedFields.toEntries (p : PackedFields) : Entries :=
  [("field_names", .list (p.fieldNames.map .text)), ("data_types", .list (p.dataTypes.map .text)),
    ("encrypted_value", .text p.encryptedValue), ("metadata", .dict p.metadata.toEntries),
    ("public_key_hash", .text p.publicKeyHash)]

end SealedFields
