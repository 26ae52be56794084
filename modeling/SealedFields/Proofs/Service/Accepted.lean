import SealedFields.Proofs.Ciphertext.Serialized
import SealedFields.Proofs.Engine.Neutral
import SealedFields.Proofs.Key.Making
import SealedFields.Proofs.Service.Anchoring
import SealedFields.Proofs.Settings

/-!
# Accepted settings

A service with accepted settings starts, and as long as it stays up it encrypts whatever can be prepared, for every
user it knows. What it leaves to the settings may still fail then: they accept any text as a scheme and any number as
a security level, and a level that there is not fails a request whose keys were made already.
-/

namespace SealedFields

/-! ## 1. What is written -/

theorem Text.utf8?_ofChars (cs : List Char) : (Text.ofChars cs).utf8? = some (Utf8.encode cs) := by
  unfold Text.utf8?
  rw [Text.chars?_ofChars]
  rfl

/-- An anchor has a reference if the names in it have bytes; everything else in it was printed. -/
theorem Anchor.reference_eq {identity : Text} {bs : Bytes} (named : identity.utf8? = some bs) (fieldName : Text)
    (wire shown : List Char) :
    match fieldName.utf8? with
    | some _ => ∃ t, Anchor.reference ⟨identity, fieldName, .ofChars wire, .ofChars shown⟩ = .ok t
    | none => Anchor.reference ⟨identity, fieldName, .ofChars wire, .ofChars shown⟩ = .error .unencodable := by
  have bar : Text.utf8? "|" = some [124] := by decide +kernel
  unfold reference parts Text.join Text.join Text.join Text.join
  simp only [Text.utf8?_append, Text.utf8?_ofChars, named, bar]
  cases fieldName.utf8? with
  | none => rfl
  | some _ => exact ⟨_, rfl⟩

theorem Wire.ofChars_of_serialize {c : Ciphertext Float} {t : Text} (h : serialize c = .ok t) :
    ∃ cs, t = .ofChars cs := by
  unfold serialize envelope at h
  split at h
  case h_1 => exact ⟨_, (Except.ok.inj h).symm⟩
  case h_2 => cases h
  case h_3 => cases h

/-- Every plaintext is encrypted to a ciphertext that is written. -/
theorem Codec.exists_written (scheme : Scheme) (plaintext : Bytes) (keys : KeyPair) : ∃ c wire,
    encrypt (.registered scheme) plaintext keys = .ok c ∧ Wire.serialize c = .ok (.ofChars wire) ∧
      c.depth = 0 ∧ c.size = Ciphertext.freshSize := by
  obtain ⟨c, encrypted, -⟩ := exists_encrypt scheme plaintext keys
  have encoded : encode plaintext (Parameters.registered scheme).noiseDeviation (keystreamSeed keys.publicKey) = .ok c :=
    encrypted
  rw [noiseDeviation_registered] at encoded
  obtain ⟨⟨-, noise⟩, valid, -⟩ := encode_eq_ok encoded
  have counts : c.depth = 0 ∧ c.size = Ciphertext.freshSize := by
    unfold encode at encoded
    split at encoded
    case isTrue => cases encoded
    case isFalse =>
      obtain ⟨-, rfl⟩ := Ciphertext.checked_eq_ok_iff.1 (Outcome.mapError_eq_ok_iff.1 encoded)
      exact ⟨rfl, rfl⟩
  have number : c.noise.isNaN = false := by
    rw [noise]
    decide +kernel
  obtain ⟨t, written⟩ := Wire.exists_serialize valid number (Json.short_of_lt (by rw [counts.1]; decide))
    (Json.short_of_lt (by rw [counts.2]; decide))
  obtain ⟨wire, rfl⟩ := Wire.ofChars_of_serialize written
  exact ⟨c, wire, encrypted, written, counts⟩

namespace Service

variable {s s' : Service} {user identity : Text} {r : EncryptionRequest}

/-! ## 2. A service that is up -/

/-- A service that was started and was not closed since. -/
structure Serving (s : Service) : Prop where
  ready : s.ready = true
  engines : s.engines = Scheme.all
  pool : s.PoolOpen
  keys : ∃ store, s.keys = some store ∧ (s.custody store).Able

/-- A service that is up stays up, with the same settings. -/
def Lasts (s s' : Service) : Prop := s.Serving → s'.Serving ∧ s'.settings = s.settings

instance : Std.Refl Lasts := ⟨fun _ serving => ⟨serving, rfl⟩⟩

instance : IsTrans Service Lasts where
  trans _ _ _ first second serving := by
    obtain ⟨serving, same⟩ := first serving
    obtain ⟨serving, same'⟩ := second serving
    exact ⟨serving, same'.trans same⟩

theorem Serving.engine_eq (serving : s.Serving) (scheme : Scheme) : s.engine scheme = .ok (.registered scheme) := by
  unfold engine
  rw [serving.engines]
  cases scheme <;> rfl

theorem Serving.withCustody (serving : s.Serving) {c : Custody} (able : c.Able) : (s.withCustody c).Serving :=
  ⟨serving.ready, serving.engines, serving.pool, c.store, rfl, able.at s.now c.waits⟩

theorem lasts_withKeys {α : Type} {f : KeySource → Custody → α × Custody}
    (works : ∀ {source c}, KeySource.Faithful source → Custody.Able c → (f source c).2.Able) :
    Keeps Lasts (withKeys f) := by
  refine keeps_withKeys_of fun s store found serving => ?_
  obtain ⟨store', found', able⟩ := serving.keys
  obtain rfl := Option.some.inj (found.symm.trans found')
  exact ⟨serving.withCustody (works s.faithful_keySource able), rfl⟩

instance : LedgerFramed Lasts where
  start s serving := by
    rw [run_start_of_ready serving.ready]
    exact ⟨serving, rfl⟩
  ask errand o := lasts_withKeys fun faithful able => able.ask faithful errand o
  askAll requests := lasts_withKeys fun faithful able => able.askAll faithful requests
  bootstrappingKey evaluationKey scheme := lasts_withKeys fun {source _} _ able =>
    able.bootstrappingKey source evaluationKey scheme
  counters _ _ serving := ⟨⟨serving.ready, serving.engines, serving.pool, serving.keys⟩, rfl⟩
  ledger _ _ serving := ⟨⟨serving.ready, serving.engines, serving.pool, serving.keys⟩, rfl⟩

theorem lasts_happen {e : Event} (lasting : e ≠ .close) : Lasts s (happen s e) := by
  refine framed_happen (fun user request _ => ?_) (fun _ _ serving => ?_) (fun close => absurd close lasting)
    (fun now serving => ?_) fun _ serving => ?_
  · refine keeps_createCircuit (fun _ _ serving => ?_) user request s
    exact ⟨⟨serving.ready, serving.engines, serving.pool, serving.keys⟩, rfl⟩
  · exact ⟨⟨serving.ready, serving.engines, serving.pool, serving.keys⟩, rfl⟩
  · -- The caches work at any time of their clock.
    obtain ⟨store, found, able⟩ := serving.keys
    exact ⟨⟨serving.ready, serving.engines, serving.pool, store, found, able.at now s.waits⟩, rfl⟩
  · exact ⟨⟨serving.ready, serving.engines, serving.pool, serving.keys⟩, rfl⟩

theorem lasts_after {events : List Event} (lasting : .close ∉ events) : Lasts s (s.after events) := by
  induction events generalizing s with
  | nil => exact Std.Refl.refl s
  | cons e events ih =>
    obtain ⟨other, rest⟩ := List.ne_and_not_mem_of_not_mem_cons lasting
    exact IsTrans.trans _ _ _ (lasts_happen other.symm) (ih rest)

/-! ## 3. A start -/

theorem exists_run_makeWrapper (own : s.wrapper = none) (clean : s.settings.issues = []) :
    ∃ w ephemeralKeys, makeWrapper.run s = (.ok w, { s with ephemeralKeys }) := by
  rcases Settings.masterKey_of_clean clean with none | ⟨w, set⟩
  · unfold makeWrapper
    rw [run_bind_of_ok (run_get s), own]
    dsimp only
    rw [none]
    exact ⟨_, _, rfl⟩
  · exact ⟨w, s.ephemeralKeys, run_makeWrapper (.inr ⟨own, set⟩)⟩

/-- Settings within their bounds have all that a start needs. -/
theorem startable_of_inBounds {settings : Settings} (bounds : settings.InBounds) (w : KeyWrapper) :
    Startable w settings := by
  have lives {ttl : Float} (positive : ttl > 0.0) : ¬ ttl ≤ 0.0 := fun le => Number.not_lt_of_le le positive
  have workers : ¬ settings.workerPoolSize < 1 := Int.not_lt.2 bounds.workers
  refine ⟨?_, ?_, bounds.startTries⟩
  · unfold WorkerPool.new
    rw [if_neg workers]
    exact ⟨_, rfl⟩
  · unfold NewStore KeyStore.new Cache.empty
    rw [if_neg (lives bounds.keyTtl), if_neg (lives bounds.bootstrapTtl)]
    exact ⟨_, rfl⟩

theorem run_startPool_of_new {pool : WorkerPool} (missing : s.pool = none)
    (new : WorkerPool.new s.settings.workerPoolSize = .ok pool) :
    startPool.run s = (.ok (), { s with pool := some pool }) := by
  rw [run_startPool_of_none missing, new]

theorem run_startKeys_of_made {w : KeyWrapper} {store : KeyStore} (missing : s.keys = none)
    (made : makeWrapper.run s = (.ok w, s')) (new : NewStore w s'.settings store) :
    startKeys.run s = (.ok (), { s' with keys := some store }) := by
  unfold NewStore at new
  unfold startKeys
  rw [run_bind_of_ok (run_get s), missing]
  dsimp only [Option.isNone_none]
  rw [if_pos rfl, run_bind_of_ok made, run_bind_of_ok (run_get s'), new]
  rfl

/-- A service with accepted settings that has never been started, and whose custodian is empty. -/
structure Unstarted (s : Service) : Prop where
  bounds : s.settings.InBounds
  clean : s.settings.issues = []
  exact : s.entropy.Exact
  custodian : s.custodian = .empty
  up : s.outages = 0
  pool : s.pool = none
  keys : s.keys = none
  wrapper : s.wrapper = none

/-- The first attempt to start brings everything up, with the master key that is set or one that is made up. -/
theorem Unstarted.exists_run_bringUp (unstarted : s.Unstarted) : ∃ s', bringUp.run s = (.ok (), s') ∧
    Serving { s' with ready := true } ∧ s'.settings = s.settings := by
  obtain ⟨pool, newPool⟩ := (startable_of_inBounds unstarted.bounds (.ephemeral 0)).pool
  have pooled := run_startPool_of_new (s := { s with engines := Scheme.all }) unstarted.pool newPool
  obtain ⟨w, ephemeralKeys, made⟩ := exists_run_makeWrapper
    (s := { s with engines := Scheme.all, pool := some pool }) unstarted.wrapper unstarted.clean
  obtain ⟨store, newStore⟩ := (startable_of_inBounds unstarted.bounds w).store
  have keyed := run_startKeys_of_made (s := { s with engines := Scheme.all, pool := some pool }) unstarted.keys made
    newStore
  rw [run_bringUp_of_up unstarted.up, run_bind_of_ok pooled]
  refine ⟨_, keyed, ⟨rfl, rfl, ⟨pool, rfl, closed_of_new newPool⟩, store, rfl, ?_⟩, rfl⟩
  obtain ⟨-, policy_eq, -⟩ := Custody.new_eq_ok newStore
  have answering : Custody.Answering s.custodian := by
    rw [unstarted.custodian]
    exact Custody.answering_empty
  have quiet : (s.custody store).Quiet := Custody.quiet_new answering newStore
  have able : (s.custody store).Able := by
    refine ⟨⟨Custody.sound_new unstarted.exact newStore, quiet.idle, answering⟩, fun o r held => ?_, ?_⟩
    · -- The custodian is empty.
      have none : Entries.get? s.custodian.records o = none := by
        rw [unstarted.custodian]
        rfl
      cases held.symm.trans none
    · show 0 ≤ store.policy.maxRetries
      rw [policy_eq]
      exact unstarted.bounds.custodyTries
  exact able

theorem Unstarted.exists_start (unstarted : s.Unstarted) (idle : s.ready = false) :
    ∃ s', start.run s = (.ok (), s') ∧ s'.Serving ∧ s'.settings = s.settings := by
  obtain ⟨s', brought, serving, same⟩ := unstarted.exists_run_bringUp
  have tries : ((0 : Nat) : Int) ≤ (startPolicy s.settings).maxRetries := unstarted.bounds.startTries
  have attempts : (startPolicy s.settings).executeSuspended startWait startWork () s = (.ok (), s') :=
    Retry.resume_of_ok tries brought
  rw [run_start_of_not_ready idle, attempts]
  exact ⟨_, rfl, serving, same⟩

/-! ## 4. What a request is left with -/

theorem run_schemeOf_none (s : Service) :
    (schemeOf none).run s = (Scheme.parse (.text s.settings.defaultScheme), s) := by
  unfold schemeOf
  dsimp only
  rw [run_bind_of_ok (run_get s)]
  rfl

/-- A level that is set is looked at when it is used. -/
theorem run_securityLevelOf_none (s : Service) : (securityLevelOf none).run s =
    (if Check.securityLevels.contains s.settings.defaultSecurityLevel then .ok s.settings.defaultSecurityLevel
      else .error .badValue, s) := by
  unfold securityLevelOf
  dsimp only
  rw [run_bind_of_ok (run_get s)]
  split <;> rfl

/-- The time can be written in milliseconds. -/
def Dated (s : Service) : Prop := (milliseconds s.unixTime).natAbs < Nat.pow 10 Decimal.maxDigits

theorem exists_metadataText {m : Metadata} (level : Check.securityLevels.contains m.securityLevel = true)
    (dated : m.timestamp.natAbs < Nat.pow 10 Decimal.maxDigits) (depth : m.depth = some 0) (size : m.size = some 2) :
    ∃ shown, metadataText m = .ok (.ofChars shown) := by
  have int {i : Int} (short : i.natAbs < Nat.pow 10 Decimal.maxDigits) : ∃ cs, Json.print .compact (.int i) = .ok cs := by
    have printed : Decimal.ofInt? i = some (Decimal.ofInt i) := if_pos short
    refine ⟨Decimal.ofInt i, ?_⟩
    rw [Json.print, printed]
  have leveled : m.securityLevel.natAbs < 10 ^ 4 := by
    rcases List.mem_cons.1 (List.contains_iff_mem.1 level) with same | level
    · omega
    · rcases List.mem_cons.1 level with same | level
      · omega
      · rw [List.mem_singleton.1 level]
        decide
  obtain ⟨cs, printed⟩ : ∃ cs, Json.print .compact (.dict m.toEntries) = .ok cs := by
    apply Json.exists_print_dict
    simp only [Metadata.toEntries, depth, size, Value.ofOption, List.forall_mem_cons, List.not_mem_nil, false_implies,
      implies_true, and_true]
    refine ⟨⟨_, rfl⟩, int (Json.short_of_lt leveled), ⟨_, rfl⟩, ?_, int dated, ⟨_, rfl⟩, int (Json.short_of_lt (by decide)),
      int (Json.short_of_lt (by decide)), ⟨_, rfl⟩⟩
    cases m.bootstrappable <;> exact ⟨_, rfl⟩
  refine ⟨cs, ?_⟩
  unfold metadataText
  rw [printed]

/-- Metadata of a fresh ciphertext, and its text, if the level that is set is one that there is. -/
theorem exists_run_metadataOf (listed : Check.securityLevels.contains s.settings.defaultSecurityLevel = true)
    {c : Ciphertext Float} (depth : c.depth = 0) (size : c.size = Ciphertext.freshSize) (scheme : Scheme)
    (bootstrappable : Bool) (format : Wire.Format) :
    ∃ m, (metadataOf c scheme none bootstrappable format).run s = (.ok m, s) ∧
      (s.Dated → ∃ shown, metadataText m = .ok (.ofChars shown)) := by
  have level := run_securityLevelOf_none s
  rw [if_pos listed] at level
  unfold metadataOf
  rw [run_bind_of_ok level, run_bind_of_ok (run_get s), depth, size]
  exact ⟨_, rfl, fun dated => exists_metadataText listed dated rfl rfl⟩

theorem run_metadataOf_of_unlisted (unlisted : Check.securityLevels.contains s.settings.defaultSecurityLevel = false)
    (c : Ciphertext Float) (scheme : Scheme) (bootstrappable : Bool) (format : Wire.Format) :
    (metadataOf c scheme none bootstrappable format).run s = (.error .badValue, s) := by
  have level := run_securityLevelOf_none s
  rw [if_neg (Bool.eq_false_iff.1 unlisted)] at level
  unfold metadataOf
  rw [run_bind, level]

/-! ## 5. A request -/

/-- Why a request that names neither a scheme nor a level is refused, if it is. Both are left to the settings then;
besides, names must have bytes: the owner's, which keys are bound to, and the field's, if it is to be anchored. -/
def hindrance? (settings : Settings) (ledger : Option Ledger) (identity : Text) (r : EncryptionRequest) :
    Option Failure :=
  match Scheme.parse (.text settings.defaultScheme) with
  | .error f => some f
  | .ok _ =>
    if identity.utf8? = none then some .unencodable
    else if Check.securityLevels.contains settings.defaultSecurityLevel = false then some .badValue
    else if r.storeOnChain = true ∧ ledger.isSome ∧ r.fieldName.utf8? = none then some .unencodable
    else none

/-- The ledger, if there is one, is the one in memory. -/
def LedgerInMemory (s : Service) : Prop := ∀ l, s.ledger = some l → l.client = Ledger.inMemory.client

variable {o : Owner} {bs : Bytes} {request : Value}

/-- The keys of an owner whose name has bytes are in custody once they were asked for. -/
theorem Serving.run_keysFor (serving : s.Serving) (o : Owner) : ∃ c : Custody, c.Able ∧
    match o.identity.utf8? with
    | some _ => ∃ keys r, (keysFor .create o).run s = (.ok keys, s.withCustody c) ∧ c.record? o = some r
    | none => (keysFor .create o).run s = (.error .unencodable, s.withCustody c) := by
  obtain ⟨store, found, able⟩ := serving.keys
  have makes : Custody.Makes s.keySource o.scheme := ⟨rfl, _, serving.engine_eq o.scheme⟩
  have asked := Custody.ask_create able.steady able.openable able.tries makes
  refine ⟨(Custody.ask s.keySource .create o (s.custody store)).2, able.ask s.faithful_keySource .create o, ?_⟩
  unfold keysFor
  rw [run_bind_of_ok (run_withKeys found _)]
  cases named : o.identity.utf8? with
  | none =>
    rw [named] at asked
    dsimp only
    rw [asked]
    rfl
  | some bs =>
    rw [named] at asked
    obtain ⟨keys, told⟩ := asked
    obtain ⟨⟨r, held, -⟩, -⟩ := Custody.serves_ask able.steady s.faithful_keySource told
    refine ⟨keys, r, ?_, held⟩
    rw [told]
    rfl

/-- An anchor on the ledger in memory fails only for a field whose name has no bytes. -/
theorem run_anchor_inMemory {l : Ledger} (present : s.ledger = some l) (inMemory : l.client = Ledger.inMemory.client)
    (named : identity.utf8? = some bs) (fieldName : Text) (wire shown : List Char) :
    match fieldName.utf8? with
    | some _ => ∃ a s', (anchor ⟨identity, fieldName, .ofChars wire, .ofChars shown⟩).run s = (.ok a, s')
    | none => ∃ s', (anchor ⟨identity, fieldName, .ofChars wire, .ofChars shown⟩).run s
        = (.error .unencodable, s') := by
  have referred := Anchor.reference_eq named fieldName wire shown
  rw [run_anchor present, inMemory]
  unfold Ledger.inMemory
  dsimp only
  cases fieldNamed : fieldName.utf8? with
  | none =>
    rw [fieldNamed] at referred
    rw [referred]
    exact ⟨_, rfl⟩
  | some _ =>
    rw [fieldNamed] at referred
    obtain ⟨reference, referred⟩ := referred
    rw [referred]
    exact ⟨_, _, rfl⟩

/-- A plaintext is encrypted and written, whatever follows. -/
theorem Serving.exists_run_written (serving : s.Serving) (scheme : Scheme) (keys : KeyPair) (plaintext : Bytes) :
    ∃ c wire, c.depth = 0 ∧ c.size = Ciphertext.freshSize ∧
      ∀ {α : Type} (f : Ciphertext Float → Text → ServiceM α), (do
        let p ← pureResult ((← get).engine scheme)
        let c ← runPooled (Codec.encrypt p plaintext keys)
        let wire ← pureResult (Wire.write .serialized c)
        f c wire).run s = (f c (.ofChars wire)).run s := by
  obtain ⟨c, wire, encrypted, written, depth, size⟩ := Codec.exists_written scheme plaintext keys
  refine ⟨c, wire, depth, size, fun f => ?_⟩
  have engine : (pureResult (s.engine scheme)).run s = (.ok (.registered scheme), s) := by
    rw [run_pureResult, serving.engine_eq]
  have pooled : (runPooled (Codec.encrypt (.registered scheme) plaintext keys)).run s = (.ok c, s) := by
    rw [run_runPooled serving.pool, encrypted]
  have wired : (pureResult (Wire.write .serialized c)).run s = (.ok (.ofChars wire), s) := Prod.ext written rfl
  rw [run_bind_of_ok (run_get s), run_bind_of_ok engine, run_bind_of_ok pooled, run_bind_of_ok wired]

/-- A request of a known user that names neither a scheme nor a level, for a value that can be prepared. -/
structure Asks (s : Service) (user : Text) (request : Value) (identity : Text) (r : EncryptionRequest) : Prop where
  known : (Entries.get? s.users user).filter (!·.isEmpty) = some identity
  checked : EncryptionRequest.check request = .ok r
  noScheme : r.scheme = none
  noLevel : r.securityLevel = none
  prepared : ∃ plaintext, FieldValue.prepare r.value r.dataType = .ok plaintext
  inMemory : r.storeOnChain = true → s.LedgerInMemory
  dated : r.storeOnChain = true → s.Dated

/-- A level that there is not fails the encryption when all else is done. -/
theorem run_encryptAs_of_unlisted (serving : s.Serving) (noLevel : r.securityLevel = none)
    (unlisted : Check.securityLevels.contains s.settings.defaultSecurityLevel = false) (o : Owner) (keys : KeyPair)
    (plaintext : Bytes) : (encryptAs o keys .serialized r plaintext).run s = (.error .badValue, s) := by
  obtain ⟨c, wire, -, -, writes⟩ := serving.exists_run_written o.scheme keys plaintext
  unfold encryptAs
  rw [writes, noLevel, run_bind, run_metadataOf_of_unlisted unlisted]

/-- With a level that there is, only a field's name may fail its encryption, if the field is to be anchored. -/
theorem run_encryptAs_of_listed (serving : s.Serving) (asks : s.Asks user request o.identity r)
    (listed : Check.securityLevels.contains s.settings.defaultSecurityLevel = true)
    (named : o.identity.utf8? = some bs) (keys : KeyPair) (plaintext : Bytes) :
    if r.storeOnChain = true ∧ s.ledger.isSome ∧ r.fieldName.utf8? = none then
      ((encryptAs o keys .serialized r plaintext).run s).1 = .error .unencodable
    else ∃ field, ((encryptAs o keys .serialized r plaintext).run s).1 = .ok field := by
  obtain ⟨c, wire, depth, size, writes⟩ := serving.exists_run_written o.scheme keys plaintext
  obtain ⟨m, described, shows⟩ :=
    exists_run_metadataOf listed depth size o.scheme r.allowBootstrapping .serialized
  unfold encryptAs
  rw [writes, asks.noLevel, run_bind_of_ok described]
  cases asked : r.storeOnChain with
  | false => exact ⟨_, rfl⟩
  | true =>
    obtain ⟨shown, printed⟩ := shows (asks.dated asked)
    have shownText : (pureResult (metadataText m)).run s = (.ok (.ofChars shown), s) := Prod.ext printed rfl
    rw [if_pos rfl, run_bind_of_ok shownText]
    cases present : s.ledger with
    | none =>
      rw [run_bind_of_ok (run_anchor_of_none present _)]
      exact ⟨_, rfl⟩
    | some l =>
      have anchored := run_anchor_inMemory present (asks.inMemory asked l present) named r.fieldName wire shown
      cases fieldNamed : r.fieldName.utf8? with
      | none =>
        rw [fieldNamed] at anchored
        obtain ⟨s', refused⟩ := anchored
        rw [run_bind, refused]
        rfl
      | some _ =>
        rw [fieldNamed] at anchored
        obtain ⟨a, s', anchored⟩ := anchored
        rw [run_bind_of_ok anchored]
        exact ⟨_, rfl⟩

/-- Up to its scheme, nothing of such a request can fail. -/
theorem run_encryptField_of_asks (serving : s.Serving) (asks : s.Asks user request identity r) :
    (encryptField user request).run s = (do
      let o : Owner := ⟨identity, ← schemeOf none⟩
      let keys ← keysFor .create o
      let plaintext ← pureResult (FieldValue.prepare r.value r.dataType)
      encryptAs o keys .serialized r plaintext : ServiceM EncryptedField).run s := by
  unfold encryptField
  rw [run_bind_of_ok (run_accept asks.checked s), run_bind_of_ok (run_start_of_ready serving.ready),
    run_bind_of_ok (run_identityOf asks.known), asks.noScheme]

/-- What a request with keys comes to: its encryption, after its keys are in custody. -/
theorem exists_run_encryptField (serving : s.Serving) (asks : s.Asks user request identity r) {scheme : Scheme}
    (parsed : Scheme.parse (.text s.settings.defaultScheme) = .ok scheme) (named : identity.utf8? = some bs) :
    ∃ (c : Custody) (keys : KeyPair) (plaintext : Bytes) (record : KeyRecord), c.Able ∧
      (encryptField user request).run s
        = (encryptAs ⟨identity, scheme⟩ keys .serialized r plaintext).run (s.withCustody c) ∧
      c.record? ⟨identity, scheme⟩ = some record := by
  have chosen := run_schemeOf_none s
  rw [parsed] at chosen
  obtain ⟨c, able, asked⟩ := serving.run_keysFor ⟨identity, scheme⟩
  rw [named] at asked
  obtain ⟨keys, record, given, held⟩ := asked
  obtain ⟨plaintext, prepared⟩ := asks.prepared
  have plain : (pureResult (FieldValue.prepare r.value r.dataType)).run (s.withCustody c)
      = (.ok plaintext, s.withCustody c) := Prod.ext prepared rfl
  refine ⟨c, keys, plaintext, record, able, ?_, held⟩
  rw [run_encryptField_of_asks serving asks, run_bind_of_ok chosen, run_bind_of_ok given, run_bind_of_ok plain]

theorem run_encryptField (serving : s.Serving) (asks : s.Asks user request identity r) :
    match hindrance? s.settings s.ledger identity r with
    | none => ∃ field, ((encryptField user request).run s).1 = .ok field
    | some f => ((encryptField user request).run s).1 = .error f := by
  unfold hindrance?
  have chosen := run_schemeOf_none s
  cases parsed : Scheme.parse (.text s.settings.defaultScheme) with
  | error f =>
    rw [parsed] at chosen
    rw [run_encryptField_of_asks serving asks, run_bind, chosen]
  | ok scheme =>
    cases named : identity.utf8? with
    | none =>
      obtain ⟨c, -, asked⟩ := serving.run_keysFor ⟨identity, scheme⟩
      rw [parsed] at chosen
      rw [named] at asked
      rw [run_encryptField_of_asks serving asks, run_bind_of_ok chosen, run_bind, asked]
      rfl
    | some bs =>
      obtain ⟨c, keys, plaintext, record, able, run, -⟩ := exists_run_encryptField serving asks parsed named
      have serving' := serving.withCustody able
      rw [run]
      dsimp only
      rw [if_neg nofun]
      cases listed : Check.securityLevels.contains s.settings.defaultSecurityLevel with
      | false =>
        rw [if_pos rfl, run_encryptAs_of_unlisted serving' asks.noLevel listed]
      | true =>
        have asks' : (s.withCustody c).Asks user request identity r :=
          ⟨asks.known, asks.checked, asks.noScheme, asks.noLevel, asks.prepared, asks.inMemory, asks.dated⟩
        have encrypted := run_encryptAs_of_listed (o := ⟨identity, scheme⟩) serving' asks' listed named keys plaintext
        have ledger_eq : (s.withCustody c).ledger = s.ledger := rfl
        rw [ledger_eq] at encrypted
        rw [if_neg Bool.noConfusion]
        split at encrypted
        case isTrue unnamed =>
          rw [if_pos unnamed]
          exact encrypted
        case isFalse named =>
          rw [if_neg named]
          exact encrypted

/-- With a level that there is not, a request fails after the keys that it needed were stored. -/
theorem exists_run_encryptField_of_unlisted (serving : s.Serving) (asks : s.Asks user request identity r)
    {scheme : Scheme} (parsed : Scheme.parse (.text s.settings.defaultScheme) = .ok scheme)
    (named : identity.utf8? = some bs)
    (unlisted : Check.securityLevels.contains s.settings.defaultSecurityLevel = false) :
    ∃ s' record, (encryptField user request).run s = (.error .badValue, s') ∧
      Entries.get? s'.custodian.records ⟨identity, scheme⟩ = some record := by
  obtain ⟨c, keys, plaintext, record, able, run, held⟩ := exists_run_encryptField serving asks parsed named
  rw [run]
  exact ⟨_, record, run_encryptAs_of_unlisted (serving.withCustody able) asks.noLevel unlisted _ keys plaintext, held⟩

/-! ## 6. Accepted settings -/

section Assembled

variable {environment arguments : Entries} {settings : Settings} {users : List (Text × Text)} {ledger : Option Ledger}
  {entropy : Entropy} {unixTime : Int}

/-- With accepted settings a service starts. Whatever happens until it is closed, a request that leaves scheme and level
to the settings is answered, if there is such a scheme and such a level, and if the names in it have bytes; otherwise
it fails. The scheme is looked at first, but the level last: then the keys of the request are in custody already. -/
theorem accepted_settings_serve (loaded : Settings.load environment arguments = .ok settings)
    (clean : settings.issues = []) (exact : entropy.Exact) :
    ∃ s, start.run (assembled settings users ledger entropy unixTime 0 .empty none) = (.ok (), s) ∧
      ∀ events, Event.close ∉ events → ∀ user request identity r, (s.after events).Asks user request identity r →
        (match hindrance? settings (s.after events).ledger identity r with
          | none => ∃ field, ((encryptField user request).run (s.after events)).1 = .ok field
          | some f => ((encryptField user request).run (s.after events)).1 = .error f) ∧
        ∀ scheme, Scheme.parse (.text settings.defaultScheme) = .ok scheme → identity.utf8?.isSome →
          Check.securityLevels.contains settings.defaultSecurityLevel = false →
            ∃ record, Entries.get? ((encryptField user request).run (s.after events)).2.custodian.records
              ⟨identity, scheme⟩ = some record := by
  have unstarted : (assembled settings users ledger entropy unixTime 0 .empty none).Unstarted :=
    ⟨Settings.inBounds_of_load loaded, clean, exact, rfl, rfl, rfl, rfl, rfl⟩
  obtain ⟨s, started, serving, same⟩ := unstarted.exists_start rfl
  refine ⟨s, started, fun events lasting user request identity r asks => ?_⟩
  obtain ⟨serving', same'⟩ := lasts_after lasting serving
  have settings_eq : (s.after events).settings = settings := same'.trans same
  have answered := run_encryptField serving' asks
  rw [settings_eq] at answered
  refine ⟨answered, fun scheme parsed named unlisted => ?_⟩
  obtain ⟨bs, named⟩ := Option.isSome_iff_exists.1 named
  rw [← settings_eq] at parsed unlisted
  obtain ⟨s', record, run, held⟩ := exists_run_encryptField_of_unlisted serving' asks parsed named unlisted
  rw [run]
  exact ⟨record, held⟩

/-- What the settings are if nothing is set. -/
def defaults : Settings :=
  ⟨"development", "INFO", "tfhe", 192, 4, 50, 30.0, 3600.0, 7200.0, 20, 3, 0.5, 2, none⟩

/-- A greeting whose scheme and level are left to the settings. -/
def plainGreeting : EncryptionRequest := { greeting with scheme := none, storeOnChain := false }

/-- A start changes nothing about the users. -/
theorem asks_plainGreeting {s₀ : Service} (same : SameLedger s₀ s)
    (alice : Entries.get? s₀.users "alice" = some (Text.ofString "0xab")) :
    s.Asks "alice" (.dict plainGreeting.toEntries) "0xab" plainGreeting := by
  refine ⟨?_, rfl, rfl, rfl, ⟨_, rfl⟩, nofun, nofun⟩
  rw [same.users_eq, alice]
  rfl

theorem accepted_settings_serve_default : ∃ s field, Settings.load [] [] = .ok defaults ∧
    start.run (assembled defaults [("alice", "0xab")] none .reproducible 1700000000 0 .empty none) = (.ok (), s) ∧
      ((encryptField "alice" (.dict plainGreeting.toEntries)).run (s.after [.start])).1 = .ok field := by
  have loaded : Settings.load [] [] = .ok defaults := rfl
  obtain ⟨s, started, serves⟩ :=
    @accepted_settings_serve _ _ _ [("alice", "0xab")] none _ 1700000000 loaded rfl Entropy.exact_reproducible
  have starts : Keeps SameLedger start := Framed.start
  have same : SameLedger _ (s.after [.start]) := IsTrans.trans _ _ _ (starts.of_run started) (starts s)
  obtain ⟨answered, -⟩ := serves [.start] (by simp) _ _ _ _ (asks_plainGreeting same rfl)
  have free : hindrance? defaults (s.after [.start]).ledger "0xab" plainGreeting = none := by
    rw [same.ledger_eq]
    decide +kernel
  rw [free] at answered
  obtain ⟨field, answered⟩ := answered
  exact ⟨s, field, loaded, started, answered⟩

/-- A level that there is not is accepted, and every request that is left to it fails. -/
theorem accepted_level_refused : ∃ s s',
    Settings.load [] [("DEFAULT_SECURITY_LEVEL", .int 100)] = .ok { defaults with defaultSecurityLevel := 100 } ∧
      { defaults with defaultSecurityLevel := 100 }.issues = [] ∧
      start.run (assembled { defaults with defaultSecurityLevel := 100 } [("alice", "0xab")] none .reproducible
        1700000000 0 .empty none) = (.ok (), s) ∧
      (encryptField "alice" (.dict plainGreeting.toEntries)).run s = (.error .badValue, s') := by
  have loaded : Settings.load [] [("DEFAULT_SECURITY_LEVEL", .int 100)]
      = .ok { defaults with defaultSecurityLevel := 100 } := rfl
  have unstarted : (assembled { defaults with defaultSecurityLevel := 100 } [("alice", "0xab")] none .reproducible
      1700000000 0 .empty none).Unstarted :=
    ⟨Settings.inBounds_of_load loaded, rfl, Entropy.exact_reproducible, rfl, rfl, rfl, rfl, rfl⟩
  obtain ⟨s, started, serving, same⟩ := unstarted.exists_start rfl
  have parsed : Scheme.parse (.text s.settings.defaultScheme) = .ok .tfhe := by
    rw [same]
    rfl
  have unlisted : Check.securityLevels.contains s.settings.defaultSecurityLevel = false := by
    rw [same]
    rfl
  obtain ⟨bs, named⟩ : ∃ bs, Text.utf8? "0xab" = some bs := ⟨_, rfl⟩
  have starts : Keeps SameLedger start := Framed.start
  obtain ⟨s', -, refused, -⟩ := exists_run_encryptField_of_unlisted serving
    (asks_plainGreeting (starts.of_run started) rfl) parsed named unlisted
  exact ⟨s, s', loaded, rfl, started, refused⟩

end Assembled

end Service

end SealedFields
