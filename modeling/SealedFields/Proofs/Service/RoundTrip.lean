import SealedFields.Proofs.Ciphertext.Fresh
import SealedFields.Proofs.Service.History
import SealedFields.Proofs.Service.Request

/-!
# What was encrypted is decrypted

A field that was encrypted, alone or in a batch, is sealed under keys that are in custody. Whatever happens
afterwards, its owner finds the keys again and gets the plaintext back.
-/

namespace SealedFields.Service

variable {s s' : Service} {w : KeyWrapper} {user : Text} {o : Owner} {keys : KeyPair} {plaintext : Bytes}
  {format : Wire.Format} {wire : Text} {metadata : Metadata} {r : EncryptionRequest} {field : EncryptedField}

/-! ## 1. Sealed wires -/

/-- A wire that opens to a plaintext under given keys, whether its tag is looked at or not. -/
structure Seals (keys : KeyPair) (plaintext : Bytes) (wire : Text) (metadata : Metadata) : Prop where
  listed : Check.securityLevels.contains metadata.securityLevel = true
  opens : ∀ verify, ∃ c, Wire.read metadata.encoding wire = .ok c ∧ Codec.decrypt c keys verify = .ok plaintext

theorem securityLevelOf_eq_ok {requested : Option Int} {level : Int}
    (named : ∀ l, requested = some l → Check.securityLevels.contains l = true)
    (h : (securityLevelOf requested).run s = (.ok level, s')) : Check.securityLevels.contains level = true := by
  cases requested with
  | some l =>
    obtain ⟨same, -⟩ := Prod.mk.inj h
    obtain rfl := Except.ok.inj same
    exact named l rfl
  | none =>
    obtain ⟨s₁, s₂, -, default⟩ := run_bind_eq_ok h
    dsimp only at default
    -- A level that is set by default is checked when it is used.
    split at default
    case isTrue listed =>
      obtain ⟨same, -⟩ := Prod.mk.inj default
      obtain rfl := Except.ok.inj same
      exact listed
    case isFalse => cases default

theorem metadataOf_eq_ok {c : Ciphertext Float} {scheme : Scheme} {requested : Option Int}
    {bootstrappable : Bool} {m : Metadata}
    (named : ∀ l, requested = some l → Check.securityLevels.contains l = true)
    (h : (metadataOf c scheme requested bootstrappable format).run s = (.ok m, s')) :
    m.scheme = scheme ∧ m.encoding = format ∧ Check.securityLevels.contains m.securityLevel = true := by
  obtain ⟨level, s₁, asked, rest⟩ := run_bind_eq_ok h
  obtain ⟨s₂, s₃, -, rest⟩ := run_bind_eq_ok rest
  obtain ⟨same, -⟩ := Prod.mk.inj rest
  obtain rfl := Except.ok.inj same
  exact ⟨rfl, rfl, securityLevelOf_eq_ok named asked⟩

/-- What is encrypted under keys and written is sealed under them. -/
theorem seals_of_written {scheme : Scheme} {c : Ciphertext Float} {requested : Option Int} {bootstrappable : Bool}
    (named : ∀ l, requested = some l → Check.securityLevels.contains l = true)
    (encrypted : Codec.encrypt (.registered scheme) plaintext keys = .ok c)
    (written : Wire.write format c = .ok wire)
    (described : (metadataOf c scheme requested bootstrappable format).run s = (.ok metadata, s')) :
    Seals keys plaintext wire metadata ∧ metadata.scheme = scheme := by
  obtain ⟨scheme_eq, encoding_eq, listed⟩ := metadataOf_eq_ok named described
  refine ⟨⟨listed, fun verify => ?_⟩, scheme_eq⟩
  rw [encoding_eq]
  exact Codec.decrypt_read_encrypt scheme format encrypted written verify

theorem seals_encryptAs (named : ∀ l, r.securityLevel = some l → Check.securityLevels.contains l = true)
    (h : (encryptAs o keys format r plaintext).run s = (.ok field, s')) :
    Seals keys plaintext field.encryptedValue field.metadata ∧ field.metadata.scheme = o.scheme := by
  obtain ⟨s₀, s₁, -, h⟩ := run_bind_eq_ok h
  obtain ⟨p, s₂, engine, h⟩ := run_bind_eq_ok h
  -- The engine of a scheme has its registered parameters.
  obtain rfl := engine_eq_ok (Prod.mk.inj engine).1
  obtain ⟨c, s₃, pooled, h⟩ := run_bind_eq_ok h
  obtain ⟨wire, s₄, written, h⟩ := run_bind_eq_ok h
  obtain ⟨metadata, s₅, described, h⟩ := run_bind_eq_ok h
  have seals := seals_of_written named (runPooled_eq_ok pooled).1 (Prod.mk.inj written).1 described
  -- Whatever becomes of the anchor, the field is the one that was written.
  have sealed : field.encryptedValue = wire ∧ field.metadata = metadata := by
    split at h
    case isTrue =>
      obtain ⟨shown, s₆, -, h⟩ := run_bind_eq_ok h
      obtain ⟨a, s₇, -, h⟩ := run_bind_eq_ok h
      obtain ⟨⟨⟩, s₈, -, h⟩ := run_bind_eq_ok h
      obtain rfl := Except.ok.inj (Prod.mk.inj h).1
      exact ⟨rfl, rfl⟩
    case isFalse =>
      obtain ⟨a, s₆, -, h⟩ := run_bind_eq_ok h
      obtain ⟨⟨⟩, s₇, -, h⟩ := run_bind_eq_ok h
      obtain rfl := Except.ok.inj (Prod.mk.inj h).1
      exact ⟨rfl, rfl⟩
  obtain ⟨wire_eq, metadata_eq⟩ := sealed
  rw [wire_eq, metadata_eq]
  exact seals

/-! ## 2. Decryptable wires -/

/-- A user's wire that can be decrypted: the service can be started, and keys that the wire is sealed under
are in custody. -/
structure Decryptable (w : KeyWrapper) (user : Text) (plaintext : Bytes) (wire : Text) (metadata : Metadata)
    (s : Service) : Prop where
  up : s.outages = 0
  startable : Startable w s.settings
  tries : 0 ≤ s.settings.custodianMaxRetries
  owned : ∃ identity keys, (Entries.get? s.users user).filter (!·.isEmpty) = some identity ∧
    s.Held w ⟨identity, metadata.scheme⟩ keys ∧ Seals keys plaintext wire metadata

theorem Decryptable.mono (decryptable : s.Decryptable w user plaintext wire metadata) (grows : Grows user s s') :
    s'.Decryptable w user plaintext wire metadata := by
  obtain ⟨up, startable, tries, identity, keys, known, held, seals⟩ := decryptable
  refine ⟨grows.outages up, ?_, ?_, identity, keys, ?_, held.mono grows, seals⟩
  · rw [grows.settings_eq]
    exact startable
  · rw [grows.settings_eq]
    exact tries
  · rw [grows.identity_eq]
    exact known

/-- A service that can open a wire: with a pool, and in possession of keys that the wire is sealed under. -/
structure Opens (keys : KeyPair) (plaintext : Bytes) (wire : Text) (metadata : Metadata) (s : Service) : Prop where
  seals : Seals keys plaintext wire metadata
  pooled : s.PoolOpen

theorem Opens.exists_run (opens : s.Opens keys plaintext wire metadata) (verify : Bool) : ∃ c,
    (pureResult (Wire.read metadata.encoding wire)).run s = (.ok c, s) ∧
      (runPooled ((Codec.decrypt c keys verify).mapError .field)).run s = (.ok plaintext, s) := by
  obtain ⟨c, read, decrypted⟩ := opens.seals.opens verify
  refine ⟨c, ?_, ?_⟩
  · rw [run_pureResult, read]
  · rw [run_runPooled opens.pooled, decrypted]
    rfl

/-- If it was closed, the service starts again, and finds the keys of a wire that can be decrypted. -/
theorem exists_opens_of_decryptable (sound : s.Sound w)
    (decryptable : s.Decryptable w user plaintext wire metadata) :
    ∃ s₁ identity keys s₂, start.run s = (.ok (), s₁) ∧ (identityOf user).run s₁ = (.ok identity, s₁) ∧
      (keysFor .lookup ⟨identity, metadata.scheme⟩).run s₁ = (.ok keys, s₂) ∧
      s₂.Opens keys plaintext wire metadata := by
  obtain ⟨s₁, started⟩ := exists_run_start decryptable.up sound.wraps decryptable.startable
  -- Starting keeps the wire decryptable, and leaves a pool and a key store.
  have running := running_start sound started
  obtain ⟨sound, grows⟩ : s₁.Sound w ∧ Grows user s s₁ := keeps_start.advances started sound
  have decryptable := decryptable.mono grows
  obtain ⟨identity, keys, known, held, seals⟩ := decryptable.owned
  obtain ⟨pool, found⟩ := Option.isSome_iff_exists.1 running.pool
  obtain ⟨store, stored⟩ := Option.isSome_iff_exists.1 running.keys
  obtain ⟨c, looked⟩ := exists_run_keysFor_lookup sound stored held decryptable.tries
  -- The lookup leaves the pool of the service as it is.
  have pooled : (s₁.withCustody c).PoolOpen := ⟨pool, found, closed_of_new (sound.pool pool found)⟩
  exact ⟨s₁, identity, keys, _, started, run_identityOf known, looked, seals, pooled⟩

theorem decryptField_of_decryptable (sound : s.Sound w)
    (decryptable : s.Decryptable w user plaintext wire metadata) (name dataType : Text) (verify : Bool) :
    ((decryptField user (.dict (DecryptionRequest.toEntries ⟨name, wire, metadata, dataType, verify⟩))).run s).1
      = (FieldValue.convert plaintext dataType).mapError .field := by
  obtain ⟨s₁, identity, keys, s₂, started, told, looked, opens⟩ := exists_opens_of_decryptable sound decryptable
  obtain ⟨c, read, decrypted⟩ := opens.exists_run verify
  -- The answer of the encryption is accepted as a request.
  let r : DecryptionRequest := ⟨name, wire, metadata, dataType, verify⟩
  have accepted : (accept DecryptionRequest.check (.dict r.toEntries)).run s = (.ok r, s) :=
    run_accept (DecryptionRequest.check_toEntries opens.seals.listed) s
  unfold decryptField
  rw [run_bind_of_ok accepted, run_bind_of_ok started, run_bind_of_ok told]
  unfold openOwned ownerOf
  rw [run_bind_of_ok looked]
  unfold openField
  rw [run_bind_of_ok read, run_bind_of_ok decrypted]
  rfl

/-! ## 3. Encrypting one field -/

/-- A wire that was sealed under keys in custody can be decrypted, if the service ran before. -/
theorem decryptable_of_seals (sound : s.Sound w) (running : s.Running)
    (tries : 0 ≤ s.settings.custodianMaxRetries) {identity : Text}
    (known : (Entries.get? s.users user).filter (!·.isEmpty) = some identity) (grows : Grows user s s')
    (held : s'.Held w ⟨identity, metadata.scheme⟩ keys) (seals : Seals keys plaintext wire metadata) :
    s'.Decryptable w user plaintext wire metadata := by
  refine ⟨grows.outages running.up, ?_, ?_, identity, keys, ?_, held, seals⟩
  · rw [grows.settings_eq]
    exact sound.startable running
  · rw [grows.settings_eq]
    exact tries
  · rw [grows.identity_eq]
    exact known

theorem decryptable_encryptField (sound : s.Sound w) {request : Value}
    (checked : EncryptionRequest.check request = .ok r)
    (h : (encryptField user request).run s = (.ok field, s')) :
    ∃ plaintext, FieldValue.prepare r.value r.dataType = .ok plaintext ∧
      s'.Decryptable w user plaintext field.encryptedValue field.metadata := by
  have h := bind_accept_eq_ok checked h
  obtain ⟨⟨⟩, s₁, started, h⟩ := run_bind_eq_ok h
  obtain ⟨identity, s₂, told, h⟩ := run_bind_eq_ok h
  obtain ⟨rfl, known⟩ := identityOf_eq_ok told
  obtain ⟨scheme, s₃, chosen, h⟩ := run_bind_eq_ok h
  obtain rfl := schemeOf_eq_ok chosen
  obtain ⟨keys, s₄, given, h⟩ := run_bind_eq_ok h
  obtain ⟨plaintext, s₅, converted, h⟩ := run_bind_eq_ok h
  obtain ⟨prepared, rfl⟩ := Prod.mk.inj converted
  -- The service runs from here on, and the keys are held once they are given.
  have running := running_start sound started
  obtain ⟨sound, -⟩ : s₁.Sound w ∧ Grows user s s₁ := keeps_start.advances started sound
  obtain ⟨held, tries⟩ := held_keysFor sound given
  obtain ⟨sound', grows⟩ : s₄.Sound w ∧ Grows user s₁ s₄ := (keeps_keysFor _ _).advances given sound
  obtain ⟨-, grows'⟩ : s'.Sound w ∧ Grows user s₄ s' := (keeps_encryptAs _ _ _ _ _).advances h sound'
  have named : ∀ l, r.securityLevel = some l → Check.securityLevels.contains l = true :=
    fun l named => EncryptionRequest.listed_of_check checked named
  obtain ⟨seals, scheme_eq⟩ := seals_encryptAs named h
  have held : s₄.Held w ⟨identity, field.metadata.scheme⟩ keys := by
    rw [scheme_eq]
    exact held
  exact ⟨plaintext, prepared, (decryptable_of_seals sound running tries known grows held seals).mono grows'⟩

/-! ## 4. Encrypting a batch -/

theorem prepareField_eq_ok {key : Except Failure KeyPair} {p : Prepared} (h : prepareField key r = .ok p) :
    key = .ok p.1 ∧ p.2.1 = r ∧ FieldValue.prepare r.value r.dataType = .ok p.2.2 := by
  obtain ⟨k, given, h⟩ := Outcome.bind_eq_ok_iff.1 h
  obtain ⟨plaintext, prepared, h⟩ := Outcome.bind_eq_ok_iff.1 h
  obtain rfl := Except.ok.inj h
  exact ⟨given, rfl, prepared⟩

/-- What a batch is encrypted from: every field has its keys and its plaintext. -/
theorem getElem?_prepared {keys : List (Except Failure KeyPair)} {rs : List EncryptionRequest} {ps : List Prepared}
    (all : List.zipWith prepareField keys rs = ps.map .ok) {i : Nat} {p : Prepared} (there : ps[i]? = some p)
    (asked : rs[i]? = some r) :
    keys[i]? = some (.ok p.1) ∧ p.2.1 = r ∧ FieldValue.prepare r.value r.dataType = .ok p.2.2 := by
  have found : (List.zipWith prepareField keys rs)[i]? = some (.ok p) := by
    rw [all, List.getElem?_map, there]
    rfl
  obtain ⟨key, r', given, asked', prepared⟩ := List.getElem?_zipWith_eq_some.1 found
  obtain rfl := Option.some.inj (asked.symm.trans asked')
  obtain ⟨rfl, same, prepared⟩ := prepareField_eq_ok prepared
  exact ⟨given, same, prepared⟩

/-- Every field of a batch can be decrypted. -/
theorem decryptable_encryptAll (sound : s.Sound w) (running : s.Running) {identity : Text} {scheme : Scheme}
    (known : (Entries.get? s.users user).filter (!·.isEmpty) = some identity)
    {rs : List EncryptionRequest} {fields : List EncryptedField}
    (checked : ∀ r ∈ rs, ∃ v, EncryptionRequest.check v = .ok r)
    (h : (encryptAll ⟨identity, scheme⟩ format rs).run s = (.ok fields, s')) {i : Nat}
    (asked : rs[i]? = some r) (given : fields[i]? = some field) :
    ∃ plaintext, FieldValue.prepare r.value r.dataType = .ok plaintext ∧
      s'.Decryptable w user plaintext field.encryptedValue field.metadata := by
  obtain ⟨answers, s₁, told, rest₁⟩ := run_bind_eq_ok h
  obtain ⟨done, s₂, worked, rest₂⟩ := run_bind_eq_ok rest₁
  obtain ⟨ps, s₃, ready, rest₃⟩ := run_bind_eq_ok rest₂
  obtain ⟨all, rfl⟩ := Prod.mk.inj ready
  obtain ⟨finished, rfl⟩ := Prod.mk.inj rest₃
  have all : List.zipWith prepareField answers rs = ps.map .ok := Outcome.mapM_id_eq_ok all
  dsimp only at worked
  rw [all, Outcome.filterMap_toOption_ok, Outcome.mapM_id_eq_ok finished] at worked
  -- The field was encrypted from its request's keys and plaintext, in some state along the way.
  have each : List.Forall₂ (fun (p : Prepared) b => ∃ s₁ s₂,
      (encryptAs ⟨identity, scheme⟩ p.1 format p.2.1 p.2.2).run s₁ = (b, s₂)) ps (fields.map .ok) :=
    mapM_outcome_eq_ok worked
  have given : (fields.map (Except.ok : EncryptedField → Except Failure EncryptedField))[i]? = some (.ok field) := by
    rw [List.getElem?_map, given]
    rfl
  obtain ⟨⟨keys, r', plaintext⟩, there, s₄, s₅, encrypted⟩ := Outcome.exists_getElem?_left each given
  obtain ⟨granted, rfl, prepared⟩ := getElem?_prepared all there asked
  dsimp only at granted prepared encrypted
  obtain ⟨v, checked⟩ := checked r' (List.mem_of_getElem? asked)
  have named : ∀ l, r'.securityLevel = some l → Check.securityLevels.contains l = true :=
    fun l named => EncryptionRequest.listed_of_check checked named
  obtain ⟨seals, scheme_eq⟩ := seals_encryptAs named encrypted
  -- The keys were asked for with those of all other fields, before any field was encrypted.
  have requested : (rs.map fun _ => (Errand.create, (⟨identity, scheme⟩ : Owner)))[i]?
      = some (.create, ⟨identity, scheme⟩) := by
    rw [List.getElem?_map, asked]
    rfl
  obtain ⟨held, tries⟩ := held_askAll sound told requested granted
  have held : s₁.Held w ⟨identity, field.metadata.scheme⟩ keys := by
    rw [scheme_eq]
    exact held
  obtain ⟨sound', grows⟩ : s₁.Sound w ∧ Grows user s s₁ := Keeps.advances (Framed.askAll _) told sound
  -- What the other fields do in between only adds to the state.
  have steps : Advances w user s₁ s₂ :=
    (Keeps.mapM fun _ _ => (keeps_encryptAs _ _ _ _ _).outcome).of_run worked
  obtain ⟨-, grows'⟩ := steps sound'
  exact ⟨plaintext, prepared, (decryptable_of_seals sound running tries known grows held seals).mono grows'⟩

/-- A batch is admitted to a service that runs. -/
theorem admitBatch_eq_ok (sound : s.Sound w) {size : Nat} {identity : Text}
    (h : (admitBatch user size).run s = (.ok identity, s')) :
    s'.Sound w ∧ s'.Running ∧ (Entries.get? s'.users user).filter (!·.isEmpty) = some identity := by
  obtain ⟨⟨⟩, s₁, bounded, rest₁⟩ := run_bind_eq_ok h
  obtain ⟨⟨⟩, s₂, started, told⟩ := run_bind_eq_ok rest₁
  obtain ⟨rfl, known⟩ := identityOf_eq_ok told
  obtain ⟨sound₁, -⟩ : s₁.Sound w ∧ Grows user s s₁ := (keeps_checkBatchSize _).advances bounded sound
  obtain ⟨sound₂, -⟩ : s₂.Sound w ∧ Grows user s₁ s₂ := keeps_start.advances started sound₁
  exact ⟨sound₂, running_start sound₁ started, known⟩

/-- A batch is encrypted by a service that runs, as one ciphertext or field by field. -/
theorem encryptBatch_eq_ok (sound : s.Sound w) {request : Value} {b : BatchEncryption} {batch : EncryptedBatch}
    (checked : BatchEncryption.check request = .ok b) (h : (encryptBatch user request).run s = (.ok batch, s')) :
    ∃ identity scheme format s₁, s₁.Sound w ∧ s₁.Running ∧
      (Entries.get? s₁.users user).filter (!·.isEmpty) = some identity ∧
      ((∃ p, batch = .packed p ∧ (encryptPacked ⟨identity, scheme⟩ format b.fields).run s₁ = (.ok p, s')) ∨
        ∃ fields, batch = .fields fields ∧
          (encryptAll ⟨identity, scheme⟩ format b.fields).run s₁ = (.ok fields, s')) := by
  have h := bind_accept_eq_ok checked h
  obtain ⟨identity, s₁, admitted, rest₁⟩ := run_bind_eq_ok h
  obtain ⟨sound₁, running, known⟩ := admitBatch_eq_ok sound admitted
  obtain ⟨scheme, s₂, chosen, rest₂⟩ := run_bind_eq_ok rest₁
  obtain rfl := schemeOf_eq_ok chosen
  refine ⟨identity, scheme, if b.compressed then .compressed else .serialized, s₁, sound₁, running, known, ?_⟩
  dsimp only at rest₂
  split at rest₂
  case isTrue =>
    obtain ⟨p, s₃, encrypted, last⟩ := run_bind_eq_ok rest₂
    obtain ⟨same, rfl⟩ := Prod.mk.inj last
    exact .inl ⟨p, (Except.ok.inj same).symm, encrypted⟩
  case isFalse =>
    obtain ⟨fields, s₃, encrypted, last⟩ := run_bind_eq_ok rest₂
    obtain ⟨same, rfl⟩ := Prod.mk.inj last
    exact .inr ⟨fields, (Except.ok.inj same).symm, encrypted⟩

/-- Every field of a batch that was not packed can be decrypted. -/
theorem decryptable_encryptBatch (sound : s.Sound w) {request : Value} {b : BatchEncryption}
    {fields : List EncryptedField} (checked : BatchEncryption.check request = .ok b)
    (h : (encryptBatch user request).run s = (.ok (.fields fields), s')) {i : Nat}
    (asked : b.fields[i]? = some r) (given : fields[i]? = some field) :
    ∃ plaintext, FieldValue.prepare r.value r.dataType = .ok plaintext ∧
      s'.Decryptable w user plaintext field.encryptedValue field.metadata := by
  obtain ⟨identity, scheme, format, s₁, sound₁, running, known, ⟨p, other, -⟩ | ⟨fs, same, encrypted⟩⟩ :=
    encryptBatch_eq_ok sound checked h
  · -- A packed batch is no list of fields.
    cases other
  · obtain rfl := EncryptedBatch.fields.inj same
    exact decryptable_encryptAll sound₁ running known (BatchEncryption.fields_of_check checked) encrypted asked given

/-! ## 5. The round trip -/

/-- A user's request was encrypted to a field: alone, or in a batch of fields of their own. -/
inductive Encrypts (user : Text) (s s' : Service) (r : EncryptionRequest) (field : EncryptedField) : Prop where
  | alone {request : Value} (checked : EncryptionRequest.check request = .ok r)
      (done : (encryptField user request).run s = (.ok field, s'))
  | inBatch {request : Value} {b : BatchEncryption} {fields : List EncryptedField} {i : Nat}
      (checked : BatchEncryption.check request = .ok b)
      (done : (encryptBatch user request).run s = (.ok (.fields fields), s'))
      (asked : b.fields[i]? = some r) (given : fields[i]? = some field)

theorem decryptable_of_encrypts (sound : s.Sound w) (encrypts : Encrypts user s s' r field) :
    s'.Sound w ∧ ∃ plaintext, FieldValue.prepare r.value r.dataType = .ok plaintext ∧
      s'.Decryptable w user plaintext field.encryptedValue field.metadata := by
  cases encrypts with
  | alone checked done =>
    obtain ⟨sound', -⟩ : s'.Sound w ∧ Grows user s s' := (keeps_encryptField _ _).advances done sound
    exact ⟨sound', decryptable_encryptField sound checked done⟩
  | inBatch checked done asked given =>
    obtain ⟨sound', -⟩ : s'.Sound w ∧ Grows user s s' := (keeps_encryptBatch _ _).advances done sound
    exact ⟨sound', decryptable_encryptBatch sound checked done asked given⟩

/-- A service with all its collaborators, before it is started. -/
def assembled (settings : Settings) (users : List (Text × Text)) (ledger : Option Ledger) (entropy : Entropy)
    (unixTime : Int) (outages : Nat) (custodian : Custodian) (wrapper : Option KeyWrapper) : Service :=
  { Service.new settings users ledger entropy unixTime outages with custodian, wrapper }

section Assembled

variable {settings : Settings} {users : List (Text × Text)} {ledger : Option Ledger} {entropy : Entropy}
  {unixTime : Int} {outages : Nat} {custodian : Custodian} {wrapper : Option KeyWrapper}

theorem sound_assembled
    (wraps : (assembled settings users ledger entropy unixTime outages custodian wrapper).Wraps w)
    (exact : entropy.Exact) (answering : Custody.Answering custodian) :
    (assembled settings users ledger entropy unixTime outages custodian wrapper).Sound w := by
  refine ⟨wraps, exact, answering, ?_, ?_, ?_⟩
  · intro pool found
    cases found
  · intro store found
    cases found
  · intro ready
    cases ready

/-- What a user encrypted, alone or in a batch that is not packed, that user decrypts, whatever happened
before and whatever happens afterwards: the answer is the value that the plaintext of the request stands for.
The wrapper stays the same, the custodian answers every call, and the user keeps one identity. -/
theorem encrypted_field_decrypts
    (wraps : (assembled settings users ledger entropy unixTime outages custodian wrapper).Wraps w)
    (exact : entropy.Exact) (answering : Custody.Answering custodian) (before later : List Event)
    (encrypts : Encrypts user
      ((assembled settings users ledger entropy unixTime outages custodian wrapper).after before) s' r field)
    (fixed : ∀ e ∈ later, e.Fixes user (Entries.get? s'.users user)) :
    ∃ plaintext, FieldValue.prepare r.value r.dataType = .ok plaintext ∧
      ∀ name verify, ((decryptField user (.dict (DecryptionRequest.toEntries
          ⟨name, field.encryptedValue, field.metadata, r.dataType, verify⟩))).run (s'.after later)).1
        = (FieldValue.convert plaintext r.dataType).mapError .field := by
  have sound := sound_after (sound_assembled wraps exact answering) before
  obtain ⟨sound', plaintext, prepared, decryptable⟩ := decryptable_of_encrypts sound encrypts
  obtain ⟨sound'', grows⟩ := advances_after fixed sound'
  refine ⟨plaintext, prepared, fun name verify => ?_⟩
  exact decryptField_of_decryptable sound'' (decryptable.mono grows) name r.dataType verify

end Assembled

/-- A service with one user. -/
def ofAlice : Service :=
  assembled ⟨"development", "INFO", "tfhe", 192, 4, 50, 30.0, 3600.0, 7200.0, 20, 3, 0.5, 2, none⟩
    [("alice", "0xab")] none .reproducible 1700000000 1 .empty (some (.ephemeral 0))

def greeting : EncryptionRequest := ⟨"greeting", .text "hello", "string", some .bfv, none, false, true⟩

/-- The keys have left the cache and the service was started anew when the greeting is decrypted. -/
theorem encrypted_field_decrypts_afterRestart :
    ∃ field s', Encrypts "alice" (ofAlice.after [.start]) s' greeting field ∧
      ((decryptField "alice" (.dict (DecryptionRequest.toEntries
          ⟨"greeting", field.encryptedValue, field.metadata, "string", true⟩))).run
        (s'.after [.encryptField "bob" (.dict greeting.toEntries), .advance 10000.0, .close, .start])).1
          = .ok (.text "hello") := by
  have checked : EncryptionRequest.check (.dict greeting.toEntries) = .ok greeting := rfl
  have answered : ((encryptField "alice" (.dict greeting.toEntries)).run (ofAlice.after [.start])).1.isOk = true := by
    decide +kernel
  rcases done : (encryptField "alice" (.dict greeting.toEntries)).run (ofAlice.after [.start]) with ⟨field | field, s'⟩
  · rw [done] at answered
    cases answered
  · have encrypts : Encrypts "alice" (ofAlice.after [.start]) s' greeting field := .alone checked done
    have wraps : ofAlice.Wraps (.ephemeral 0) := .inl rfl
    have answering : Custody.Answering Custodian.empty := ⟨fun _ => rfl, fun _ => rfl⟩
    have fixed : ∀ e ∈ [Event.encryptField "bob" (.dict greeting.toEntries), .advance 10000.0, .close, .start],
        e.Fixes "alice" (Entries.get? s'.users "alice") := by
      simp [Event.Fixes]
    obtain ⟨plaintext, prepared, decrypts⟩ := encrypted_field_decrypts wraps Entropy.exact_reproducible answering
      [.start] _ encrypts fixed
    obtain rfl : _ = plaintext := Except.ok.inj prepared
    exact ⟨field, s', encrypts, decrypts "greeting" true⟩

end SealedFields.Service
