import SealedFields.Ciphertext.Codec
import SealedFields.FieldValue
import SealedFields.Service.Lifecycle
import SealedFields.Service.Request

/-!
Encrypting and decrypting one field. A field is encrypted under its owner's keys, which are made when they
are first needed; it may be anchored on the ledger, and a failure to anchor it is part of the answer.
-/

namespace SealedFields.Service

/-- The security level of a request that names one, or the one that is set. -/
def securityLevelOf (requested : Option Int) : ServiceM Int := do
  match requested with
  | some level => return level
  | none =>
    let level := (← get).settings.defaultSecurityLevel
    if Check.securityLevels.contains level then return level else throw .badValue

/-- Unix time in milliseconds, counted off the seconds as a float; whole seconds are exact as one. -/
def milliseconds (unixTime : Int) : Int :=
  if unixTime % nanoseconds = 0 then unixTime / nanoseconds * 1000
  else (Number.Binary64.ofFloat (Float.ofInt unixTime / Float.ofNat nanoseconds * 1000.0)).truncate?.getD 0

def metadataOf (c : Ciphertext Float) (scheme : Scheme) (securityLevel : Option Int) (bootstrappable : Bool)
    (encoding : Wire.Format) : ServiceM Metadata := do
  return {
    scheme
    securityLevel := ← securityLevelOf securityLevel
    noiseLevel := c.noise
    bootstrappable
    timestamp := milliseconds (← get).unixTime
    version := SealedFields.version
    depth := some c.depth
    size := some c.size
    encoding }

/-- What became of an anchor: its reference, or why there is none. -/
abbrev Anchoring := Option Text × Option Text

/-- A failure to anchor is told, any other failure of the ledger is one of the request. -/
def Anchoring.ofAnswer : Except Failure Text → Except Failure Anchoring
  | .ok reference => .ok (some reference, none)
  | .error f =>
    match f with
    | .field e => if e.kind = .anchoring then .ok (none, some e.message) else .error f
    | _ => .error f

def anchor (a : Anchor) : ServiceM Anchoring := do
  match (← get).ledger with
  | none => return (none, some "no ledger client configured")
  | some ledger =>
    let (answer, ledger) := ledger.add a
    modify fun s => { s with ledger := some ledger }
    pureResult (Anchoring.ofAnswer answer)

def metadataText (m : Metadata) : Except Failure Text :=
  match Json.print .compact (.dict m.toEntries) with
  | .ok cs => .ok (Text.ofChars cs)
  | .error _ => .error .badValue

def encryptAs (o : Owner) (keys : KeyPair) (format : Wire.Format) (r : EncryptionRequest)
    (plaintext : Bytes) : ServiceM EncryptedField := do
  let p ← pureResult ((← get).engine o.scheme)
  let c ← runPooled (Codec.encrypt p plaintext keys)
  let wire ← pureResult (Wire.write format c)
  let metadata ← metadataOf c o.scheme r.securityLevel r.allowBootstrapping format
  let (transactionReference, anchorError) ←
    if r.storeOnChain then do
      let shown ← pureResult (metadataText metadata)
      anchor ⟨o.identity, r.fieldName, wire, shown⟩
    else pure (none, none)
  count fun c => { c with encryptions := c.encryptions + 1 }
  return ⟨r.fieldName, wire, metadata, keys.publicKeyHash, transactionReference, anchorError⟩

def encryptField (user : Text) (request : Value) : ServiceM EncryptedField := do
  let r ← accept EncryptionRequest.check request
  start
  let identity ← identityOf user
  let o : Owner := ⟨identity, ← schemeOf r.scheme⟩
  let keys ← keysFor .create o
  let plaintext ← pureResult (FieldValue.prepare r.value r.dataType)
  encryptAs o keys .serialized r plaintext

def openField (keys : KeyPair) (r : DecryptionRequest) : ServiceM Value := do
  let c ← pureResult (Wire.read r.metadata.encoding r.encryptedValue)
  let plaintext ← runPooled ((Codec.decrypt c keys r.verify).mapError .field)
  count fun c => { c with decryptions := c.decryptions + 1 }
  pureResult ((FieldValue.convert plaintext r.dataType).mapError .field)

def ownerOf (identity : Text) (r : DecryptionRequest) : Owner := ⟨identity, r.metadata.scheme⟩

/-- Opens a field with the keys of its owner. -/
def openOwned (identity : Text) (r : DecryptionRequest) : ServiceM Value := do
  openField (← keysFor .lookup (ownerOf identity r)) r

def decryptField (user : Text) (request : Value) : ServiceM Value := do
  let r ← accept DecryptionRequest.check request
  start
  let identity ← identityOf user
  openOwned identity r

end SealedFields.Service
