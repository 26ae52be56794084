import SealedFields.Ciphertext.Packing
import SealedFields.Service.Fields

/-!
Batches. The fields of a batch are worked on at the same time: all ask for their keys first, and one
field's failure does not stop the others. Several fields may also be packed into one ciphertext.
-/

namespace SealedFields.Service

def checkBatchSize (size : Nat) : ServiceM Unit := do
  let limit := (← get).settings.maxBatchSize
  if limit < size then throw (.field (.batchTooLarge size limit))

/-- The identity of a user whose batch is not too large. -/
def admitBatch (user : Text) (size : Nat) : ServiceM Text := do
  checkBatchSize size
  start
  identityOf user

/-- A field with its keys and plaintext, ready to be encrypted. -/
abbrev Prepared := KeyPair × EncryptionRequest × Bytes

def prepareField (keys : Except Failure KeyPair) (r : EncryptionRequest) : Except Failure Prepared := do
  let k ← keys
  return (k, r, ← FieldValue.prepare r.value r.dataType)

/-- Encrypts many fields. A field that cannot be prepared fails before one that is being encrypted. -/
def encryptAll (o : Owner) (format : Wire.Format) (rs : List EncryptionRequest) :
    ServiceM (List EncryptedField) := do
  let keys ← withKeys fun source c => c.askAll source (rs.map fun _ => (.create, o))
  let prepared := List.zipWith prepareField keys rs
  let done ← (prepared.filterMap Except.toOption).mapM fun (k, r, plaintext) =>
    outcome (encryptAs o k format r plaintext)
  let _ ← pureResult (prepared.mapM id)
  pureResult (done.mapM id)

/-- Encrypts many fields as one ciphertext, at most as many as the scheme has slots for. -/
def encryptPacked (o : Owner) (format : Wire.Format) (rs : List EncryptionRequest) :
    ServiceM PackedFields := do
  let slots := (Parameters.registered o.scheme).simdSlots
  if slots < rs.length then throw (.field (.batchTooLarge rs.length slots))
  let keys ← keysFor .create o
  let plaintexts ← pureResult (rs.mapM fun r => FieldValue.prepare r.value r.dataType)
  let packed ← pureResult (Packing.packAll plaintexts)
  let p ← pureResult ((← get).engine o.scheme)
  let c ← runPooled (Codec.encrypt p packed keys)
  count fun c => { c with encryptions := c.encryptions + 1 }
  let wire ← pureResult (Wire.write format c)
  let metadata ← metadataOf c o.scheme none (rs.any (·.allowBootstrapping)) format
  return ⟨rs.map (·.fieldName), rs.map (·.dataType), wire, metadata, keys.publicKeyHash⟩

inductive EncryptedBatch where
  | fields (fs : List EncryptedField)
  | packed (p : PackedFields)

def encryptBatch (user : Text) (request : Value) : ServiceM EncryptedBatch := do
  let r ← accept BatchEncryption.check request
  let identity ← admitBatch user r.fields.length
  let o : Owner := ⟨identity, ← schemeOf r.commonScheme⟩
  let format : Wire.Format := if r.compressed then .compressed else .serialized
  if r.packed then return .packed (← encryptPacked o format r.fields)
  else return .fields (← encryptAll o format r.fields)

def openTogether (identity : Text) (rs : List DecryptionRequest) :
    ServiceM (List (Except Failure Value)) := do
  let keys ← withKeys fun source c => c.askAll source (rs.map fun r => (.lookup, ownerOf identity r))
  (keys.zip rs).mapM fun (k, r) => outcome do openField (← pureResult k) r

/-- Decrypts fields one after the other. A failure outside the taxonomy ends the batch. -/
def openInTurn (identity : Text) : List DecryptionRequest → ServiceM (List (Except Failure Value))
  | [] => return []
  | r :: rs => do
    let first ← outcome (openOwned identity r)
    match first with
    | .ok _ | .error (.field _) => return first :: (← openInTurn identity rs)
    | .error f => throw f

/-- What became of the fields of a batch, in their order. -/
def openFields (identity : Text) (b : BatchDecryption) : ServiceM (List (Except Failure Value)) :=
  if b.parallel then openTogether identity b.fields else openInTurn identity b.fields

def settle (handling : ErrorHandling) (acc : BatchDecryptionResult)
    (field : DecryptionRequest × Except Failure Value) : Except Failure BatchDecryptionResult :=
  match field, handling with
  | (r, .ok v), _ => .ok { acc with values := Entries.put r.fieldName v acc.values }
  | (r, .error (.field e)), .skip =>
    .ok { acc with failures := acc.failures ++ [⟨r.fieldName, e.code, e.message⟩] }
  | (_, .error f), _ => .error f

def decryptBatch (user : Text) (request : Value) : ServiceM BatchDecryptionResult := do
  let r ← accept BatchDecryption.check request
  let identity ← admitBatch user r.fields.length
  let outcomes ← openFields identity r
  pureResult ((r.fields.zip outcomes).foldlM (settle r.errorHandling) ⟨[], []⟩)

def convertPacked : List Text → List Text → List Bytes → Except FieldError Entries
  | name :: names, dataType :: dataTypes, plaintext :: plaintexts => do
    let v ← FieldValue.convert plaintext dataType
    return (name, v) :: (← convertPacked names dataTypes plaintexts)
  | _, _, _ => .ok []

def decryptPacked (user : Text) (request : Value) : ServiceM Entries := do
  let r ← accept PackedFields.check request
  start
  let identity ← identityOf user
  let keys ← keysFor .lookup ⟨identity, r.metadata.scheme⟩
  let c ← pureResult (Wire.read r.metadata.encoding r.encryptedValue)
  let plaintext ← runPooled ((Codec.decrypt c keys false).mapError .field)
  let values ← pureResult ((Packing.unpack plaintext).mapError .field)
  if values.length ≠ r.fieldNames.length then
    throw (.field (.malformedCiphertext ("packed ciphertext holds " ++ Text.ofInt values.length ++
      " values, expected " ++ Text.ofInt r.fieldNames.length) (some "packed")))
  count fun c => { c with decryptions := c.decryptions + 1 }
  let entries ← pureResult ((convertPacked r.fieldNames r.dataTypes values).mapError .field)
  return Entries.ofWrites entries

end SealedFields.Service
