import Mathlib.Data.List.TakeDrop
import SealedFields.Proofs.Ciphertext.Packing
import SealedFields.Proofs.Service.RoundTrip

/-!
# Packed batches

Fields that were packed into one ciphertext are unpacked again, each under its name. Names, data types and
buffers are matched by position; a name without a data type is left out of the answer.
-/

namespace SealedFields.Service

variable {s s' : Service} {w : KeyWrapper} {user identity : Text} {request : Value} {p : PackedFields}
  {entries : Entries} {names dataTypes : List Text} {buffers : List Bytes}

/-! ## 1. Names, data types and buffers -/

/-- Names are bound as far as there are data types and buffers for them. -/
theorem names_convertPacked (h : convertPacked names dataTypes buffers = .ok entries) :
    entries.map (·.1) = names.take (min dataTypes.length buffers.length) := by
  induction names, dataTypes, buffers using convertPacked.induct generalizing entries with
  | case1 name names dataType dataTypes buffer buffers ih =>
    obtain ⟨v, -, rest⟩ := Outcome.bind_eq_ok_iff.1 h
    obtain ⟨others, converted, same⟩ := Outcome.bind_eq_ok_iff.1 rest
    obtain rfl := Except.ok.inj same
    rw [List.length_cons, List.length_cons, Nat.add_min_add_right, List.take_succ_cons, ← ih converted]
    rfl
  | case2 names dataTypes buffers some =>
    have short : names.take (min dataTypes.length buffers.length) = [] := by
      rcases names with - | ⟨name, names⟩
      · exact List.take_nil
      rcases dataTypes with - | ⟨dataType, dataTypes⟩
      · rw [List.length_nil, Nat.zero_min, List.take_zero]
      rcases buffers with - | ⟨buffer, buffers⟩
      · rw [List.length_nil, Nat.min_zero, List.take_zero]
      exact (some name names dataType dataTypes buffer buffers rfl rfl rfl).elim
    rw [convertPacked] at h
    · obtain rfl := Except.ok.inj h
      exact short.symm
    · exact some

/-- Each name is bound to the value of the buffer in its place, under the data type in its place. -/
theorem getElem?_convertPacked (h : convertPacked names dataTypes buffers = .ok entries) {i : Nat}
    {name dataType : Text} {buffer : Bytes} (named : names[i]? = some name) (typed : dataTypes[i]? = some dataType)
    (there : buffers[i]? = some buffer) :
    ∃ v, FieldValue.convert buffer dataType = .ok v ∧ entries[i]? = some (name, v) := by
  induction names, dataTypes, buffers using convertPacked.induct generalizing entries i with
  | case1 name' names dataType' dataTypes buffer' buffers ih =>
    obtain ⟨v, first, rest⟩ := Outcome.bind_eq_ok_iff.1 h
    obtain ⟨others, converted, same⟩ := Outcome.bind_eq_ok_iff.1 rest
    obtain rfl := Except.ok.inj same
    cases i with
    | zero =>
      obtain rfl := Option.some.inj named
      obtain rfl := Option.some.inj typed
      obtain rfl := Option.some.inj there
      exact ⟨v, first, rfl⟩
    | succ i => exact ih converted named typed there
  | case2 names dataTypes buffers some =>
    rcases names with - | ⟨name', names⟩
    · cases named
    rcases dataTypes with - | ⟨dataType', dataTypes⟩
    · cases typed
    rcases buffers with - | ⟨buffer', buffers⟩
    · cases there
    exact (some name' names dataType' dataTypes buffer' buffers rfl rfl rfl).elim

/-- The value that a packed field stands for, under its name. -/
def convertField (field : EncryptionRequest × Bytes) : Except FieldError (Text × Value) := do
  return (field.1.fieldName, ← FieldValue.convert field.2 field.1.dataType)

theorem convertPacked_fields (rs : List EncryptionRequest) (buffers : List Bytes) :
    convertPacked (rs.map (·.fieldName)) (rs.map (·.dataType)) buffers = (rs.zip buffers).mapM convertField := by
  induction rs generalizing buffers with
  | nil => rfl
  | cons r rs ih =>
    cases buffers with
    | nil => rfl
    | cons buffer buffers =>
      rw [List.zip_cons_cons, List.mapM_cons, ← ih]
      show (FieldValue.convert buffer r.dataType >>= fun v => _) = _
      unfold convertField
      cases FieldValue.convert buffer r.dataType <;> rfl

/-! ## 2. Unpacking -/

/-- The buffers that a user's packed wire holds, opened with the keys that are looked up for it. -/
def Unpacks (user : Text) (p : PackedFields) (buffers : List Bytes) (s : Service) : Prop :=
  ∃ s₁ identity keys s₂ c plaintext, start.run s = (.ok (), s₁) ∧
    (identityOf user).run s₁ = (.ok identity, s₁) ∧
    (keysFor .lookup ⟨identity, p.metadata.scheme⟩).run s₁ = (.ok keys, s₂) ∧ s₂.PoolOpen ∧
    Wire.read p.metadata.encoding p.encryptedValue = .ok c ∧ Codec.decrypt c keys false = .ok plaintext ∧
    Packing.unpack plaintext = .ok buffers

def wrongCount (buffers names : Nat) : Failure :=
  .field (.malformedCiphertext ("packed ciphertext holds " ++ Text.ofInt buffers ++ " values, expected " ++
    Text.ofInt names) (some "packed"))

/-- Buffers that are as many as the names are converted under their data types. -/
theorem run_decryptPacked (checked : PackedFields.check request = .ok p) (unpacks : s.Unpacks user p buffers) :
    ((decryptPacked user request).run s).1 =
      if buffers.length = p.fieldNames.length then
        ((convertPacked p.fieldNames p.dataTypes buffers).mapError .field).map Entries.ofWrites
      else .error (wrongCount buffers.length p.fieldNames.length) := by
  obtain ⟨s₁, identity, keys, s₂, c, plaintext, started, told, looked, pooled, read, decrypted, unpacked⟩ :=
    unpacks
  have read : (pureResult (Wire.read p.metadata.encoding p.encryptedValue)).run s₂ = (.ok c, s₂) := by
    rw [run_pureResult, read]
  have decrypted : (runPooled ((Codec.decrypt c keys false).mapError Failure.field)).run s₂
      = (.ok plaintext, s₂) := by
    rw [run_runPooled pooled, decrypted]
    rfl
  have unpacked : (pureResult ((Packing.unpack plaintext).mapError Failure.field)).run s₂ = (.ok buffers, s₂) := by
    rw [run_pureResult, unpacked]
    rfl
  unfold decryptPacked
  rw [run_bind_of_ok (run_accept checked s), run_bind_of_ok started, run_bind_of_ok told, run_bind_of_ok looked,
    run_bind_of_ok read, run_bind_of_ok decrypted, run_bind_of_ok unpacked]
  dsimp only
  by_cases same : buffers.length = p.fieldNames.length
  · rw [if_neg (not_not_intro same), if_pos same]
    cases convertPacked p.fieldNames p.dataTypes buffers <;> rfl
  · rw [if_pos same, if_neg same]
    rfl

/-- Where a packed wire is decrypted, its buffers were found. -/
theorem unpacks_of_ok (checked : PackedFields.check request = .ok p)
    (h : (decryptPacked user request).run s = (.ok entries, s')) : ∃ buffers, s.Unpacks user p buffers := by
  have h := bind_accept_eq_ok checked h
  obtain ⟨⟨⟩, s₁, started, h⟩ := run_bind_eq_ok h
  obtain ⟨identity, s₂, told, h⟩ := run_bind_eq_ok h
  obtain ⟨rfl, -⟩ := identityOf_eq_ok told
  obtain ⟨keys, s₃, looked, h⟩ := run_bind_eq_ok h
  obtain ⟨c, s₄, reading, h⟩ := run_bind_eq_ok h
  obtain ⟨read, rfl⟩ := Prod.mk.inj reading
  obtain ⟨plaintext, s₅, decrypting, h⟩ := run_bind_eq_ok h
  obtain ⟨decrypted, pooled, rfl⟩ := runPooled_eq_ok decrypting
  obtain ⟨buffers, s₆, unpacking, h⟩ := run_bind_eq_ok h
  obtain ⟨unpacked, -⟩ := Prod.mk.inj unpacking
  exact ⟨buffers, s₁, identity, keys, s₃, c, plaintext, started, told, looked, pooled, read,
    Outcome.mapError_eq_ok_iff.1 decrypted, Outcome.mapError_eq_ok_iff.1 unpacked⟩

/-- What was packed is unpacked. -/
theorem unpacks_of_decryptable (sound : s.Sound w) (fits : ∀ buffer ∈ buffers, buffer.length ≤ Packing.maxLength)
    (decryptable : s.Decryptable w user (Packing.pack buffers) p.encryptedValue p.metadata) :
    s.Unpacks user p buffers ∧ Check.securityLevels.contains p.metadata.securityLevel = true := by
  obtain ⟨s₁, identity, keys, s₂, started, told, looked, opens⟩ := exists_opens_of_decryptable sound decryptable
  obtain ⟨c, read, decrypted⟩ := opens.seals.opens false
  exact ⟨⟨s₁, identity, keys, s₂, c, _, started, told, looked, opens.pooled, read, decrypted,
    Packing.unpackFrom_pack 0 fits⟩, opens.seals.listed⟩

/-! ## 3. Packing -/

/-- The buffers of a packed batch are the plaintexts of its fields. -/
structure Packs (w : KeyWrapper) (user : Text) (rs : List EncryptionRequest) (p : PackedFields)
    (buffers : List Bytes) (s : Service) : Prop where
  prepared : List.Forall₂ (fun r buffer => FieldValue.prepare r.value r.dataType = .ok buffer) rs buffers
  fits : ∀ buffer ∈ buffers, buffer.length ≤ Packing.maxLength
  names : p.fieldNames = rs.map (·.fieldName)
  dataTypes : p.dataTypes = rs.map (·.dataType)
  decryptable : s.Decryptable w user (Packing.pack buffers) p.encryptedValue p.metadata

/-- A packed batch is written from the plaintexts of all its fields, and counted as one encryption. -/
theorem encryptPacked_eq_ok {o : Owner} {format : Wire.Format} {rs : List EncryptionRequest}
    (h : (encryptPacked o format rs).run s = (.ok p, s')) :
    ∃ keys s₁ buffers c, (keysFor .create o).run s = (.ok keys, s₁) ∧
      rs.mapM (fun r => FieldValue.prepare r.value r.dataType) = .ok buffers ∧
      (∀ buffer ∈ buffers, buffer.length ≤ Packing.maxLength) ∧
      Codec.encrypt (.registered o.scheme) (Packing.pack buffers) keys = .ok c ∧
      Wire.write format c = .ok p.encryptedValue ∧
      (metadataOf c o.scheme none (rs.any (·.allowBootstrapping)) format).run
        { s₁ with counters := { s₁.counters with encryptions := s₁.counters.encryptions + 1 } }
          = (.ok p.metadata, s') ∧
      p.fieldNames = rs.map (·.fieldName) ∧ p.dataTypes = rs.map (·.dataType) := by
  unfold encryptPacked at h
  dsimp only at h
  split at h
  case isTrue =>
    obtain ⟨⟨⟩, s₁, refused, -⟩ := run_bind_eq_ok h
    cases refused
  case isFalse =>
    obtain ⟨keys, s₁, given, h⟩ := run_bind_eq_ok h
    obtain ⟨buffers, s₂, preparing, h⟩ := run_bind_eq_ok h
    obtain ⟨prepared, rfl⟩ := Prod.mk.inj preparing
    obtain ⟨packed, s₃, packing, h⟩ := run_bind_eq_ok h
    obtain ⟨fitting, rfl⟩ := Prod.mk.inj packing
    obtain ⟨rfl, fits⟩ := Packing.packAll_eq_ok fitting
    rw [run_bind_of_ok (run_get s₁)] at h
    obtain ⟨parameters, s₄, lookup, h⟩ := run_bind_eq_ok h
    obtain ⟨engine, rfl⟩ := Prod.mk.inj lookup
    -- The engine of a scheme has its registered parameters.
    obtain rfl := engine_eq_ok engine
    obtain ⟨c, s₅, pooled, h⟩ := run_bind_eq_ok h
    obtain ⟨encrypted, -, rfl⟩ := runPooled_eq_ok pooled
    obtain ⟨⟨⟩, s₆, counted, h⟩ := run_bind_eq_ok h
    obtain ⟨-, rfl⟩ := Prod.mk.inj counted
    obtain ⟨wire, s₇, writing, h⟩ := run_bind_eq_ok h
    obtain ⟨written, rfl⟩ := Prod.mk.inj writing
    obtain ⟨metadata, s₈, described, h⟩ := run_bind_eq_ok h
    obtain ⟨same, rfl⟩ := Prod.mk.inj h
    obtain rfl := Except.ok.inj same
    exact ⟨keys, s₁, buffers, c, given, prepared, fits, encrypted, written, described, rfl, rfl⟩

theorem packs_encryptPacked (sound : s.Sound w) (running : s.Running) {scheme : Scheme} {format : Wire.Format}
    (known : (Entries.get? s.users user).filter (!·.isEmpty) = some identity) {rs : List EncryptionRequest}
    (h : (encryptPacked ⟨identity, scheme⟩ format rs).run s = (.ok p, s')) :
    ∃ buffers, s'.Packs w user rs p buffers := by
  obtain ⟨keys, s₁, buffers, c, given, prepared, fits, encrypted, written, described, names, dataTypes⟩ :=
    encryptPacked_eq_ok h
  obtain ⟨seals, scheme_eq⟩ := seals_of_written (fun _ named => by cases named) encrypted written described
  obtain ⟨held, tries⟩ := held_keysFor sound given
  have held : s₁.Held w ⟨identity, p.metadata.scheme⟩ keys := by
    rw [scheme_eq]
    exact held
  -- What comes after the keys only adds to the state.
  obtain ⟨sound₁, grows₁⟩ : s₁.Sound w ∧ Grows user s s₁ := (keeps_keysFor _ _).advances given sound
  have counted : Advances w user s₁
      { s₁ with counters := { s₁.counters with encryptions := s₁.counters.encryptions + 1 } } :=
    Framed.counters s₁ _
  obtain ⟨sound₂, grows₂⟩ := counted sound₁
  obtain ⟨-, grows₃⟩ := (keeps_metadataOf _ _ _ _ _).advances described sound₂
  have decryptable := decryptable_of_seals sound running tries known grows₁ held seals
  exact ⟨buffers, Outcome.mapM_eq_ok_iff.1 prepared, fits, names, dataTypes,
    decryptable.mono (grows₂.trans grows₃)⟩

/-- A packed batch can be decrypted. -/
theorem packs_encryptBatch (sound : s.Sound w) {b : BatchEncryption}
    (checked : BatchEncryption.check request = .ok b)
    (h : (encryptBatch user request).run s = (.ok (.packed p), s')) :
    ∃ buffers, s'.Packs w user b.fields p buffers := by
  obtain ⟨identity, scheme, format, s₁, sound₁, running, known, ⟨p', same, encrypted⟩ | ⟨fields, other, -⟩⟩ :=
    encryptBatch_eq_ok sound checked h
  · obtain rfl := EncryptedBatch.packed.inj same
    exact packs_encryptPacked sound₁ running known encrypted
  · -- A batch that is not packed is a list of fields.
    cases other

/-! ## 4. The round trip -/

/-- Entries that are converted under distinct names are the answer. -/
theorem ofWrites_convertPacked (nodup : names.Nodup) (h : convertPacked names dataTypes buffers = .ok entries) :
    Entries.ofWrites entries = entries := by
  apply Entries.ofWrites_of_nodup
  rw [names_convertPacked h]
  exact nodup.sublist (List.take_sublist _ _)

theorem decryptPacked_eq_ok (checked : PackedFields.check request = .ok p) (nodup : p.fieldNames.Nodup)
    (h : (decryptPacked user request).run s = (.ok entries, s')) :
    ∃ buffers, s.Unpacks user p buffers ∧ buffers.length = p.fieldNames.length ∧
      convertPacked p.fieldNames p.dataTypes buffers = .ok entries := by
  obtain ⟨buffers, unpacks⟩ := unpacks_of_ok checked h
  have outcome := run_decryptPacked checked unpacks
  rw [h] at outcome
  by_cases same : buffers.length = p.fieldNames.length
  · rw [if_pos same] at outcome
    obtain ⟨written, converted, rfl⟩ := Outcome.map_eq_ok_iff.1 outcome.symm
    have converted := Outcome.mapError_eq_ok_iff.1 converted
    rw [ofWrites_convertPacked nodup converted]
    exact ⟨buffers, unpacks, same, converted⟩
  · rw [if_neg same] at outcome
    cases outcome

theorem names_of_decrypted (same : buffers.length = names.length)
    (h : convertPacked names dataTypes buffers = .ok entries) :
    entries.map (·.1) = names.take dataTypes.length := by
  rw [names_convertPacked h, same]
  exact List.take_eq_take_min.symm

/-- Under whatever data types, the buffers of a packed batch are converted in their order. -/
theorem decryptPacked_of_packs (sound : s.Sound w) {rs : List EncryptionRequest}
    (packs : s.Packs w user rs p buffers) (dataTypes : List Text) :
    ((decryptPacked user (.dict (PackedFields.toEntries { p with dataTypes }))).run s).1
      = ((convertPacked p.fieldNames dataTypes buffers).mapError .field).map Entries.ofWrites := by
  obtain ⟨unpacks, listed⟩ := unpacks_of_decryptable sound packs.fits packs.decryptable
  have checked : PackedFields.check (.dict (PackedFields.toEntries { p with dataTypes }))
      = .ok { p with dataTypes } := PackedFields.check_toEntries listed
  have unpacks : s.Unpacks user { p with dataTypes } buffers := unpacks
  have same : buffers.length = p.fieldNames.length := by
    rw [packs.names, List.length_map]
    exact packs.prepared.length_eq.symm
  rw [run_decryptPacked checked unpacks]
  exact if_pos same

theorem Packs.mono {rs : List EncryptionRequest} (packs : s.Packs w user rs p buffers) (grows : Grows user s s') :
    s'.Packs w user rs p buffers :=
  ⟨packs.prepared, packs.fits, packs.names, packs.dataTypes, packs.decryptable.mono grows⟩

/-- When a packed wire with distinct names is decrypted, it holds as many buffers as there are names, and each
name is bound to the value of the buffer in its place under the data type in its place, as far as there are
data types: the names are all there exactly if no data type is missing. What a user packed, that user unpacks,
whatever happens in between: every field's name with the value that its plaintext stands for. -/
theorem packed_fields_decrypt (user : Text) :
    (∀ {s s' : Service} {request : Value} {p : PackedFields} {entries : Entries},
      PackedFields.check request = .ok p → p.fieldNames.Nodup →
      (decryptPacked user request).run s = (.ok entries, s') →
      ∃ buffers, s.Unpacks user p buffers ∧ buffers.length = p.fieldNames.length ∧
        entries.map (·.1) = p.fieldNames.take p.dataTypes.length ∧
        (entries.map (·.1) = p.fieldNames ↔ p.fieldNames.length ≤ p.dataTypes.length) ∧
        ∀ (i : Nat) (name dataType : Text) (buffer : Bytes), p.fieldNames[i]? = some name →
          p.dataTypes[i]? = some dataType → buffers[i]? = some buffer →
          ∃ v, FieldValue.convert buffer dataType = .ok v ∧ Entries.get? entries name = some v) ∧
    ∀ {w : KeyWrapper} {settings : Settings} {users : List (Text × Text)} {ledger : Option Ledger}
      {entropy : Entropy} {unixTime : Int} {outages : Nat} {custodian : Custodian} {wrapper : Option KeyWrapper}
      {before later : List Event} {s' : Service} {request : Value} {b : BatchEncryption} {p : PackedFields},
      (assembled settings users ledger entropy unixTime outages custodian wrapper).Wraps w → entropy.Exact →
      Custody.Answering custodian → BatchEncryption.check request = .ok b → (b.fields.map (·.fieldName)).Nodup →
      (encryptBatch user request).run
        ((assembled settings users ledger entropy unixTime outages custodian wrapper).after before)
          = (.ok (.packed p), s') →
      (∀ e ∈ later, e.Fixes user (Entries.get? s'.users user)) →
      ∃ buffers,
        List.Forall₂ (fun r buffer => FieldValue.prepare r.value r.dataType = .ok buffer) b.fields buffers ∧
        ((decryptPacked user (.dict p.toEntries)).run (s'.after later)).1
          = ((b.fields.zip buffers).mapM convertField).mapError .field := by
  constructor
  · intro s s' request p entries checked nodup h
    obtain ⟨buffers, unpacks, same, converted⟩ := decryptPacked_eq_ok checked nodup h
    have names := names_of_decrypted same converted
    refine ⟨buffers, unpacks, same, names, ?_, fun i name dataType buffer named typed there => ?_⟩
    · rw [names]
      exact List.take_eq_self_iff _
    · obtain ⟨v, value, bound⟩ := getElem?_convertPacked converted named typed there
      refine ⟨v, value, Entries.get?_of_mem ?_ (List.mem_of_getElem? bound)⟩
      rw [names]
      exact nodup.sublist (List.take_sublist _ _)
  · intro w settings users ledger entropy unixTime outages custodian wrapper before later s' request b p wraps
      exact answering checked nodup done fixed
    have sound := sound_after (sound_assembled wraps exact answering) before
    obtain ⟨buffers, packs⟩ := packs_encryptBatch sound checked done
    obtain ⟨sound', -⟩ : s'.Sound w ∧ Grows user _ s' := (keeps_encryptBatch _ _).advances done sound
    obtain ⟨sound'', grows⟩ := advances_after fixed sound'
    refine ⟨buffers, packs.prepared, ?_⟩
    have decrypted := decryptPacked_of_packs sound'' (packs.mono grows) p.dataTypes
    rw [decrypted, ← convertPacked_fields, packs.names, packs.dataTypes]
    -- The names are distinct, so that no entry is written over another.
    cases converted : convertPacked (b.fields.map (·.fieldName)) (b.fields.map (·.dataType)) buffers with
    | error e => rfl
    | ok entries => exact congrArg Except.ok (ofWrites_convertPacked nodup converted)

def halves : List EncryptionRequest :=
  [⟨"a", .float 1.5, "number", none, none, false, false⟩, ⟨"b", .float 2.5, "number", none, none, false, false⟩]

def packing (rs : List EncryptionRequest) : Value :=
  .dict [("fields", .list (rs.map fun r => .dict r.toEntries)), ("common_scheme", .text "bfv"),
    ("packed_encryption", .bool true)]

theorem check_packing_halves : BatchEncryption.check (packing halves) = .ok ⟨halves, some .bfv, true, false⟩ := rfl

/-- Is the answer a packed batch? -/
def answersPacked : Except Failure EncryptedBatch → Bool
  | .ok (.packed _) => true
  | _ => false

/-- The service packs both numbers. -/
theorem exists_packed_halves : ∃ p s',
    (encryptBatch "alice" (packing halves)).run (ofAlice.after [.start]) = (.ok (.packed p), s') := by
  have packed : answersPacked ((encryptBatch "alice" (packing halves)).run (ofAlice.after [.start])).1 = true := by
    decide +kernel
  rcases done : (encryptBatch "alice" (packing halves)).run (ofAlice.after [.start]) with ⟨f | batch, s'⟩
  · rw [done] at packed
    cases packed
  · cases batch with
    | fields fields =>
      rw [done] at packed
      cases packed
    | packed p => exact ⟨p, s', rfl⟩

theorem buffers_of_prepared_halves (prepared : List.Forall₂
    (fun r buffer => FieldValue.prepare r.value r.dataType = .ok buffer) halves buffers) :
    buffers = [[0, 0, 0, 0, 0, 0, 0xF8, 0x3F], [0, 0, 0, 0, 0, 0, 0x04, 0x40]] := by
  obtain ⟨first, others, one, rest, rfl⟩ := List.forall₂_cons_left_iff.1 prepared
  obtain ⟨second, more, two, ending, rfl⟩ := List.forall₂_cons_left_iff.1 rest
  obtain rfl := List.forall₂_nil_left_iff.1 ending
  obtain rfl : _ = first := Except.ok.inj one
  obtain rfl : _ = second := Except.ok.inj two
  rfl

theorem sound_ofAlice : (ofAlice.after [.start]).Sound (.ephemeral 0) :=
  sound_after (sound_assembled (.inl rfl) Entropy.exact_reproducible Custody.answering_empty) _

/-- The service is closed when the numbers are unpacked. -/
theorem packed_fields_decrypt_halves : ∃ p s' s'' entries,
    (encryptBatch "alice" (packing halves)).run (ofAlice.after [.start]) = (.ok (.packed p), s') ∧
      (decryptPacked "alice" (.dict p.toEntries)).run (s'.after [.advance 10000.0, .close]) = (.ok entries, s'') ∧
      entries = ([("a", .float 1.5), ("b", .float 2.5)] : Entries) ∧ p.fieldNames.length ≤ p.dataTypes.length := by
  obtain ⟨p, s', done⟩ := exists_packed_halves
  have wraps : ofAlice.Wraps (.ephemeral 0) := .inl rfl
  have nodup : (halves.map (·.fieldName)).Nodup := by decide
  have fixed : ∀ e ∈ [Event.advance 10000.0, .close], e.Fixes "alice" (Entries.get? s'.users "alice") := by
    simp [Event.Fixes]
  obtain ⟨buffers, prepared, decrypted⟩ := (packed_fields_decrypt "alice").2 wraps Entropy.exact_reproducible
    Custody.answering_empty check_packing_halves nodup done fixed
  obtain rfl := buffers_of_prepared_halves prepared
  rcases run : (decryptPacked "alice" (.dict p.toEntries)).run (s'.after [.advance 10000.0, .close])
    with ⟨f | entries, s''⟩
  · rw [run] at decrypted
    cases decrypted
  · rw [run] at decrypted
    obtain rfl : entries = _ := Except.ok.inj decrypted
    -- The answer of the encryption is accepted as a request.
    obtain ⟨buffers, packs⟩ := packs_encryptBatch sound_ofAlice check_packing_halves done
    obtain ⟨identity, keys, -, -, seals⟩ := packs.decryptable.owned
    have checked := PackedFields.check_toEntries seals.listed
    have distinct : p.fieldNames.Nodup := by
      rw [packs.names]
      exact nodup
    obtain ⟨-, -, -, -, all, -⟩ := (packed_fields_decrypt "alice").1 checked distinct run
    refine ⟨p, s', s'', _, done, run, rfl, all.1 ?_⟩
    rw [packs.names]
    rfl

/-- A data type is missing, and the second number with it. -/
theorem packed_missingType_loses : ∃ p s',
    (encryptBatch "alice" (packing halves)).run (ofAlice.after [.start]) = (.ok (.packed p), s') ∧
      p.fieldNames = ["a", "b"] ∧
      ((decryptPacked "alice" (.dict (PackedFields.toEntries { p with dataTypes := ["number"] }))).run s').1
        = .ok [("a", .float 1.5)] := by
  obtain ⟨p, s', done⟩ := exists_packed_halves
  obtain ⟨sound', -⟩ : s'.Sound (.ephemeral 0) ∧ Grows "alice" _ s' :=
    (keeps_encryptBatch _ _).advances done sound_ofAlice
  obtain ⟨buffers, packs⟩ := packs_encryptBatch sound_ofAlice check_packing_halves done
  obtain rfl := buffers_of_prepared_halves packs.prepared
  refine ⟨p, s', done, packs.names, ?_⟩
  rw [decryptPacked_of_packs sound' packs, packs.names]
  rfl

end SealedFields.Service
