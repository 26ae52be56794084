import SealedFields.Proofs.Service.Starting
import SealedFields.Service.Batch
import SealedFields.Service.Computation

/-!
# What requests keep true

Every request is made of a few operations. What all of them keep, a request keeps too, whether it is answered
or refused.
-/

namespace SealedFields.Service

/-! ## 1. What requests are made of -/

/-- A relation between states that every operation which requests are made of keeps, anchoring excepted. -/
class Framed (R : Service → Service → Prop) : Prop extends Std.Refl R, IsTrans Service R where
  start : Keeps R start
  ask (errand : Errand) (o : Owner) : Keeps R (withKeys fun source c => c.ask source errand o)
  askAll (requests : List (Errand × Owner)) : Keeps R (withKeys fun source c => c.askAll source requests)
  bootstrappingKey (evaluationKey : Bytes) (scheme : Scheme) :
    Keeps R (withKeys fun source c => c.bootstrappingKey source evaluationKey scheme)
  counters (s : Service) (counters : Counters) : R s { s with counters }

/-- A relation that anchoring keeps as well. -/
class LedgerFramed (R : Service → Service → Prop) : Prop extends Framed R where
  ledger (s : Service) (ledger : Option Ledger) : R s { s with ledger }

variable {R : Service → Service → Prop} [Framed R] {L : Service → Service → Prop} [LedgerFramed L]

theorem keeps_count (g : Counters → Counters) : Keeps R (count g) := .modify fun s => Framed.counters s (g s.counters)

theorem keeps_keysFor (errand : Errand) (o : Owner) : Keeps R (keysFor errand o) :=
  (Framed.ask errand o).bind fun keys => .pureResult keys

theorem keeps_bootstrappingKeyFor (keys : KeyPair) (scheme : Scheme) :
    Keeps R (bootstrappingKeyFor keys scheme) :=
  (Framed.bootstrappingKey keys.evaluationKey scheme).bind fun key => .pureResult key

/-! ## 2. Fields -/

section Generic

variable {R : Service → Service → Prop} [Std.Refl R] [IsTrans Service R]

theorem keeps_securityLevelOf (requested : Option Int) : Keeps R (securityLevelOf requested) := by
  cases requested with
  | some level => exact .pure level
  | none =>
    refine Keeps.get.bind fun s => ?_
    dsimp only
    split
    case isTrue => exact .pure _
    case isFalse => exact .throw _

theorem keeps_metadataOf (c : Ciphertext Float) (scheme : Scheme) (securityLevel : Option Int)
    (bootstrappable : Bool) (encoding : Wire.Format) :
    Keeps R (metadataOf c scheme securityLevel bootstrappable encoding) :=
  (keeps_securityLevelOf securityLevel).bind fun _ => Keeps.get.bind fun _ => .pure _

/-- Anchoring keeps what writing to the ledger keeps. -/
theorem keeps_anchor_of (writes : ∀ s ledger, R s { s with ledger }) (a : Anchor) : Keeps R (anchor a) := by
  refine Keeps.get.bind fun s => ?_
  cases s.ledger with
  | none => exact .pure _
  | some ledger =>
    have noted : Keeps R (modify fun s => { s with ledger := some (ledger.add a).2 } : ServiceM PUnit) :=
      .modify fun s => writes s (some (ledger.add a).2)
    exact noted.bind fun _ => .pureResult _

end Generic

theorem keeps_anchor (a : Anchor) : Keeps L (anchor a) := keeps_anchor_of LedgerFramed.ledger a

theorem keeps_encryptAs (o : Owner) (keys : KeyPair) (format : Wire.Format) (r : EncryptionRequest)
    (plaintext : Bytes) : Keeps L (encryptAs o keys format r plaintext) := by
  refine Keeps.get.bind fun s => (Keeps.pureResult _).bind fun p => ?_
  refine (keeps_runPooled _).bind fun c => (Keeps.pureResult _).bind fun wire => ?_
  refine (keeps_metadataOf c o.scheme _ _ _).bind fun metadata => ?_
  -- The field is counted and answered with, whatever became of the anchor.
  have ending : ∀ a : Anchoring, Keeps L (do
      count fun c => { c with encryptions := c.encryptions + 1 }
      return (⟨r.fieldName, wire, metadata, keys.publicKeyHash, a.1, a.2⟩ : EncryptedField)) :=
    fun _ => (keeps_count _).bind fun _ => .pure _
  split
  case isTrue =>
    refine (Keeps.pureResult _).bind fun shown => (keeps_anchor _).bind ending
  case isFalse => exact (Keeps.pure _).bind ending

theorem keeps_encryptField (user : Text) (request : Value) :
    Keeps L (encryptField user request) := by
  refine (keeps_accept _ _).bind fun r => Framed.start.bind fun _ => (keeps_identityOf _).bind fun identity => ?_
  refine (keeps_schemeOf _).bind fun scheme => (keeps_keysFor _ _).bind fun keys => ?_
  exact (Keeps.pureResult _).bind fun plaintext => keeps_encryptAs _ _ _ _ _

theorem keeps_openField (keys : KeyPair) (r : DecryptionRequest) : Keeps R (openField keys r) := by
  refine (Keeps.pureResult _).bind fun c => (keeps_runPooled _).bind fun plaintext => ?_
  exact (keeps_count _).bind fun _ => .pureResult _

theorem keeps_openOwned (identity : Text) (r : DecryptionRequest) : Keeps R (openOwned identity r) :=
  (keeps_keysFor _ _).bind fun keys => keeps_openField keys r

theorem keeps_decryptField (user : Text) (request : Value) :
    Keeps R (decryptField user request) := by
  refine (keeps_accept _ _).bind fun r => Framed.start.bind fun _ => (keeps_identityOf _).bind fun identity => ?_
  exact keeps_openOwned identity r

/-! ## 3. Batches -/

theorem keeps_checkBatchSize (size : Nat) : Keeps R (checkBatchSize size) := by
  refine Keeps.get.bind fun s => ?_
  dsimp only
  split
  case isTrue => exact .throw _
  case isFalse => exact .pure _

theorem keeps_admitBatch (user : Text) (size : Nat) : Keeps R (admitBatch user size) :=
  (keeps_checkBatchSize size).bind fun _ => Framed.start.bind fun _ => keeps_identityOf user

theorem keeps_encryptAll (o : Owner) (format : Wire.Format) (rs : List EncryptionRequest) :
    Keeps L (encryptAll o format rs) := by
  refine (Framed.askAll _).bind fun keys => (Keeps.mapM fun _ _ => ?_).bind fun done => ?_
  · exact (keeps_encryptAs _ _ _ _ _).outcome
  · exact (Keeps.pureResult _).bind fun _ => .pureResult _

theorem keeps_encryptPacked (o : Owner) (format : Wire.Format) (rs : List EncryptionRequest) :
    Keeps R (encryptPacked o format rs) := by
  unfold encryptPacked
  dsimp only
  have ending : Keeps R (do
      let keys ← keysFor .create o
      let plaintexts ← pureResult (rs.mapM fun r => FieldValue.prepare r.value r.dataType)
      let packed ← pureResult (Packing.packAll plaintexts)
      let p ← pureResult ((← get).engine o.scheme)
      let c ← runPooled (Codec.encrypt p packed keys)
      count fun c => { c with encryptions := c.encryptions + 1 }
      let wire ← pureResult (Wire.write format c)
      let metadata ← metadataOf c o.scheme none (rs.any (·.allowBootstrapping)) format
      return (⟨rs.map (·.fieldName), rs.map (·.dataType), wire, metadata, keys.publicKeyHash⟩ : PackedFields)) := by
    refine (keeps_keysFor _ _).bind fun keys => (Keeps.pureResult _).bind fun plaintexts => ?_
    refine (Keeps.pureResult _).bind fun packed => ?_
    refine Keeps.get.bind fun s => (Keeps.pureResult _).bind fun p => (keeps_runPooled _).bind fun c => ?_
    refine (keeps_count _).bind fun _ => (Keeps.pureResult _).bind fun wire => ?_
    exact (keeps_metadataOf _ _ _ _ _).bind fun _ => .pure _
  split
  case isTrue => exact (Keeps.throw _).bind fun _ => ending
  case isFalse => exact ending

theorem keeps_encryptBatch (user : Text) (request : Value) :
    Keeps L (encryptBatch user request) := by
  refine (keeps_accept _ _).bind fun r => (keeps_admitBatch _ _).bind fun identity => ?_
  refine (keeps_schemeOf _).bind fun scheme => ?_
  dsimp only
  split
  case isTrue => exact (keeps_encryptPacked _ _ _).bind fun _ => .pure _
  case isFalse => exact (keeps_encryptAll _ _ _).bind fun _ => .pure _

theorem keeps_openTogether (identity : Text) (rs : List DecryptionRequest) :
    Keeps R (openTogether identity rs) := by
  refine (Framed.askAll _).bind fun keys => Keeps.mapM fun _ _ => ?_
  exact ((Keeps.pureResult _).bind fun k => keeps_openField k _).outcome

theorem keeps_openInTurn (identity : Text) (rs : List DecryptionRequest) :
    Keeps R (openInTurn identity rs) := by
  -- Induction on the fields, each of which is opened from the state the one before it left.
  induction rs with
  | nil => exact .pure []
  | cons r rs ih =>
    unfold openInTurn
    refine (keeps_openOwned identity r).outcome.bind fun first => ?_
    split
    case h_1 => exact ih.bind fun _ => .pure _
    case h_2 => exact ih.bind fun _ => .pure _
    case h_3 => exact .throw _

theorem keeps_openFields (identity : Text) (b : BatchDecryption) : Keeps R (openFields identity b) := by
  unfold openFields
  split
  case isTrue => exact keeps_openTogether identity b.fields
  case isFalse => exact keeps_openInTurn identity b.fields

theorem keeps_decryptBatch (user : Text) (request : Value) :
    Keeps R (decryptBatch user request) := by
  refine (keeps_accept _ _).bind fun r => (keeps_admitBatch _ _).bind fun identity => ?_
  exact (keeps_openFields identity r).bind fun outcomes => .pureResult _

theorem keeps_decryptPacked (user : Text) (request : Value) :
    Keeps R (decryptPacked user request) := by
  refine (keeps_accept _ _).bind fun r => Framed.start.bind fun _ => (keeps_identityOf _).bind fun identity => ?_
  refine (keeps_keysFor _ _).bind fun keys => (Keeps.pureResult _).bind fun c => ?_
  refine (keeps_runPooled _).bind fun plaintext => (Keeps.pureResult _).bind fun values => ?_
  have ending : Keeps R (do
      count fun c => { c with decryptions := c.decryptions + 1 }
      let entries ← pureResult ((convertPacked r.fieldNames r.dataTypes values).mapError .field)
      return Entries.ofWrites entries) :=
    (keeps_count _).bind fun _ => (Keeps.pureResult _).bind fun _ => .pure _
  dsimp only
  split
  case isTrue => exact (Keeps.throw _).bind fun _ => ending
  case isFalse => exact ending

/-! ## 4. Computations -/

theorem keeps_operate (user : Text) (request : Value) : Keeps R (operate user request) := by
  refine (keeps_accept _ _).bind fun r => Framed.start.bind fun _ => (keeps_identityOf _).bind fun identity => ?_
  refine (keeps_schemeOf _).bind fun scheme => Keeps.get.bind fun s => (Keeps.pureResult _).bind fun p => ?_
  refine (Keeps.pureResult _).bind fun inputs => (keeps_keysFor _ _).bind fun keys => ?_
  -- A bootstrapping key is only made if the operation may refresh.
  dsimp only
  have ending : ∀ key, Keeps R (do
      let evaluation ← runPooled ((p.engine.evaluateNamed r.operation inputs r.rotationAmount r.autoBootstrap
        key).mapError EngineFault.failure)
      count fun c => { c with
        operations := c.operations + 1
        bootstraps := if evaluation.refreshed || decide (r.operation = Operation.name .bootstrap)
          then c.bootstraps + 1 else c.bootstraps }
      let result ← pureResult (Wire.serialize evaluation.ciphertext)
      return (⟨result, r.operation, evaluation.ciphertext.noise, evaluation.refreshed⟩ : ComputationResult)) := by
    intro key
    refine (keeps_runPooled _).bind fun evaluation => (keeps_count _).bind fun _ => ?_
    exact (Keeps.pureResult _).bind fun _ => .pure _
  split
  case isTrue => exact ((keeps_bootstrappingKeyFor _ _).map some).bind ending
  case isFalse => exact (Keeps.pure none).bind ending

/-- Storing a circuit is the one thing that a request does to the circuits. -/
theorem keeps_createCircuit (stores : ∀ s circuits, R s { s with circuits }) (user : Text) (request : Value) :
    Keeps R (createCircuit user request) := by
  refine (keeps_accept _ _).bind fun c => (keeps_identityOf _).bind fun identity => ?_
  intro s
  rw [run_bind_of_ok (run_get s), run_bind, run_pureResult]
  -- The circuits are written to the state that was read: nothing else has changed in between.
  cases c.compile s.settings.maxCircuitDepth .standard with
  | error e => exact Std.Refl.refl s
  | ok plan =>
    dsimp only
    rw [run_bind, run_pureResult]
    cases circuitId identity c.name s.unixTime with
    | error e => exact Std.Refl.refl s
    | ok id =>
      have stored : R s { s with circuits := Entries.put id ⟨identity, c, plan⟩ s.circuits } := stores s _
      have ending : Keeps R (do
          count fun c => { c with circuitsCreated := c.circuitsCreated + 1 }
          return id) := (keeps_count _).bind fun _ => .pure _
      exact IsTrans.trans _ _ _ stored (ending _)

omit [Framed R] in
theorem keeps_circuitOf [Std.Refl R] [IsTrans Service R] (identity id : Text) :
    Keeps R (circuitOf identity id) := by
  refine Keeps.get.bind fun s => ?_
  split
  case h_1 => exact .pure _
  case h_2 => exact .throw _

theorem keeps_executeCircuit (user id : Text) (inputs : Entries) (scheme : Option Value) :
    Keeps R (executeCircuit user id inputs scheme) := by
  have ending : ∀ scheme, Keeps R (do
      start
      let identity ← identityOf user
      let c ← circuitOf identity id
      let bound ← pureResult (inputs.mapM fun input => do return (input.1, ← Wire.deserialize input.2))
      let keys ← keysFor .create ⟨identity, scheme⟩
      let key ← bootstrappingKeyFor keys scheme
      let s ← get
      let p ← pureResult (s.engine scheme)
      let outputs ← runPooled (c.execute p.engine s.settings.maxCircuitDepth bound (some key))
      count fun c => { c with circuitsExecuted := c.circuitsExecuted + 1 }
      pureResult (outputs.mapM fun output => do return (output.1, ← Wire.serialize output.2))) := by
    intro scheme
    refine Framed.start.bind fun _ => (keeps_identityOf _).bind fun identity => (keeps_circuitOf _ _).bind fun c => ?_
    refine (Keeps.pureResult _).bind fun bound => (keeps_keysFor _ _).bind fun keys => ?_
    refine (keeps_bootstrappingKeyFor _ _).bind fun key => Keeps.get.bind fun s => ?_
    refine (Keeps.pureResult _).bind fun p => (keeps_runPooled _).bind fun outputs => ?_
    exact (keeps_count _).bind fun _ => .pureResult _
  cases scheme with
  | some tag => exact (Keeps.pureResult _).bind ending
  | none => exact (keeps_schemeOf none).bind ending

/-! ## 5. The invariant -/

instance (w : KeyWrapper) (user : Text) : LedgerFramed (Advances w user) where
  start := keeps_start
  ask errand o := keeps_withKeys fun faithful steady =>
    ⟨steady.ask faithful errand o, Custody.grows_ask steady faithful errand o⟩
  -- All loads have ended when the answers are given, so that the store is steady again.
  askAll requests := keeps_withKeys fun faithful steady =>
    ⟨steady.askAll faithful requests, Custody.grows_askAll steady.sound steady.idle faithful requests⟩
  bootstrappingKey evaluationKey scheme := keeps_withKeys fun {source c} _ steady =>
    ⟨steady.bootstrappingKey source evaluationKey scheme, Custody.grows_bootstrappingKey source evaluationKey scheme c⟩
  counters _ _ := Same.advances {} rfl
  ledger _ _ := Same.advances {} rfl

end SealedFields.Service
