import SealedFields.Proofs.Service.Packed

/-!
# What is anchored

A field that was encrypted by itself is on the ledger exactly if that was asked for, with the reference that
the ledger has answered; or the answer says why there is none. The fields of a packed batch are not anchored,
and nobody is told.
-/

namespace SealedFields.Service

variable {s s' s'' : Service} {user identity : Text} {request : Value} {o : Owner} {keys : KeyPair}
  {format : Wire.Format} {r : EncryptionRequest} {rs : List EncryptionRequest}

/-! ## 1. What a ledger gains -/

/-- The anchors on the ledger, in the order in which they came. -/
def onLedger (s : Service) : List Anchor := ((s.ledger.map Ledger.anchors).getD [])

def client? (s : Service) : Option LedgerClient := s.ledger.map Ledger.client

structure Gains (gained : List Anchor) (s s' : Service) : Prop where
  onLedger_eq : s'.onLedger = s.onLedger ++ gained
  client_eq : s'.client? = s.client?

theorem Gains.refl (s : Service) : Gains [] s s := ⟨(List.append_nil _).symm, rfl⟩

theorem Gains.trans {gained more : List Anchor} (h : Gains gained s s') (h' : Gains more s' s'') :
    Gains (gained ++ more) s s'' where
  onLedger_eq := by rw [h'.onLedger_eq, h.onLedger_eq, List.append_assoc]
  client_eq := h'.client_eq.trans h.client_eq

/-- What is done besides anchoring leaves the ledger and the users as they are. -/
structure SameLedger (s s' : Service) : Prop where
  ledger_eq : s'.ledger = s.ledger
  users_eq : s'.users = s.users

instance : Std.Refl SameLedger := ⟨fun _ => ⟨rfl, rfl⟩⟩

instance : IsTrans Service SameLedger :=
  ⟨fun _ _ _ first second => ⟨second.1.trans first.1, second.2.trans first.2⟩⟩

instance : Framed SameLedger where
  start := keeps_start_of (fun _ _ _ _ _ _ => ⟨rfl, rfl⟩) (fun _ _ _ _ => ⟨rfl, rfl⟩) fun _ _ => ⟨rfl, rfl⟩
  ask _ _ := keeps_withKeys_of fun _ _ _ => ⟨rfl, rfl⟩
  askAll _ := keeps_withKeys_of fun _ _ _ => ⟨rfl, rfl⟩
  bootstrappingKey _ _ := keeps_withKeys_of fun _ _ _ => ⟨rfl, rfl⟩
  counters _ _ := ⟨rfl, rfl⟩

theorem SameLedger.client_eq (same : SameLedger s s') : s'.client? = s.client? := by
  rw [client?, same.ledger_eq]
  rfl

theorem SameLedger.gains (same : SameLedger s s') : Gains [] s s' := by
  refine ⟨?_, same.client_eq⟩
  rw [onLedger, same.ledger_eq, List.append_nil]
  rfl

theorem Gains.of_same {gained : List Anchor} (gains : Gains gained s s') (same : SameLedger s' s'') :
    Gains gained s s'' := by
  have whole := gains.trans same.gains
  rw [List.append_nil] at whole
  exact whole

/-! ## 2. What is owed to one field -/

/-- What became of a field, and what the ledger has gained by it: nothing if it was not to be anchored, and
otherwise its anchor, whose reference is told, or else a failure is. -/
inductive Honours (client : Option LedgerClient) (identity : Text) (r : EncryptionRequest) :
    Except Failure EncryptedField → List Anchor → Prop
  | unasked {f : EncryptedField} (unasked : r.storeOnChain = false) (noReference : f.transactionReference = none)
      (noError : f.anchorError = none) : Honours client identity r (.ok f) []
  | anchored {f : EncryptedField} {call : LedgerClient} {n : Nat} {shown reference : Text}
      (asked : r.storeOnChain = true) (present : client = some call) (printed : metadataText f.metadata = .ok shown)
      (answered : call n ⟨identity, r.fieldName, f.encryptedValue, shown⟩ = .anchored reference)
      (told : f.transactionReference = some reference) (noError : f.anchorError = none) :
      Honours client identity r (.ok f) [⟨identity, r.fieldName, f.encryptedValue, shown⟩]
  | absent {f : EncryptedField} (asked : r.storeOnChain = true) (absent : client = none)
      (noReference : f.transactionReference = none) (told : f.anchorError = some "no ledger client configured") :
      Honours client identity r (.ok f) []
  | reported {f : EncryptedField} {call : LedgerClient} {n : Nat} {shown : Text} {kept : Bool} {e : FieldError}
      (asked : r.storeOnChain = true) (present : client = some call) (printed : metadataText f.metadata = .ok shown)
      (answered : call n ⟨identity, r.fieldName, f.encryptedValue, shown⟩ = .failed kept (.field e))
      (anchoring : e.kind = .anchoring) (noReference : f.transactionReference = none)
      (told : f.anchorError = some e.message) :
      Honours client identity r (.ok f) (if kept then [⟨identity, r.fieldName, f.encryptedValue, shown⟩] else [])
  | failed {e : Failure} : Honours client identity r (.error e) []
  | failedAfter {e : Failure} {wire shown : Text} (asked : r.storeOnChain = true) :
      Honours client identity r (.error e) [⟨identity, r.fieldName, wire, shown⟩]

/-- Every run of an encryption does what is owed to its field. -/
def Accounts (identity : Text) (r : EncryptionRequest) (m : ServiceM EncryptedField) : Prop :=
  ∀ s, ∃ gained, Gains gained s (m.run s).2 ∧ Honours s.client? identity r (m.run s).1 gained

namespace Accounts

variable {α : Type} {m : ServiceM α} {f : α → ServiceM EncryptedField}

/-- What leaves the ledger as it is may come first, and is all if it fails. -/
theorem bind (keeps : Keeps SameLedger m) (rest : ∀ a, Accounts identity r (f a)) :
    Accounts identity r (m >>= f) := by
  intro s
  have same := keeps s
  rw [run_bind]
  rcases h : m.run s with ⟨x, s₁⟩
  rw [h] at same
  cases x with
  | error e => exact ⟨[], same.gains, .failed⟩
  | ok a =>
    obtain ⟨gained, gains, honours⟩ := rest a s₁
    rw [same.client_eq] at honours
    exact ⟨gained, same.gains.trans gains, honours⟩

theorem bind_pureResult {x : Except Failure α} (rest : ∀ a, x = .ok a → Accounts identity r (f a)) :
    Accounts identity r (pureResult x >>= f) := by
  cases x with
  | error e => exact fun s => ⟨[], .refl s, .failed⟩
  | ok a => exact rest a rfl

end Accounts

/-! ## 3. One field -/

theorem gains_add {l : Ledger} (present : s.ledger = some l) (a : Anchor) :
    Gains (if (l.client l.calls a).isKept then [a] else []) s { s with ledger := some (l.add a).2 } := by
  refine ⟨?_, ?_⟩
  · show (l.add a).2.anchors = _
    rw [Ledger.anchors_add, onLedger, present]
    rfl
  · rw [client?, client?, present]
    rfl

theorem run_anchor_of_none (missing : s.ledger = none) (a : Anchor) :
    (anchor a).run s = (.ok (none, some "no ledger client configured"), s) := by
  unfold anchor
  rw [run_bind_of_ok (run_get s), missing]
  rfl

theorem run_anchor {l : Ledger} (present : s.ledger = some l) (a : Anchor) :
    (anchor a).run s
      = (Anchoring.ofAnswer (l.client l.calls a).answer, { s with ledger := some (l.add a).2 }) := by
  unfold anchor
  rw [run_bind_of_ok (run_get s), present]
  rfl

/-- A failed call is told, or fails the request. -/
theorem ofAnswer_error (f : Failure) :
    (∃ e, f = .field e ∧ e.kind = .anchoring ∧ Anchoring.ofAnswer (.error f) = .ok (none, some e.message)) ∨
      Anchoring.ofAnswer (.error f) = .error f := by
  cases f with
  | field e =>
    by_cases anchoring : e.kind = .anchoring
    · exact .inl ⟨e, rfl, anchoring, if_pos anchoring⟩
    · exact .inr (if_neg anchoring)
  | _ => exact .inr rfl

/-- A field that is to be anchored is owed what the ledger answers. -/
theorem accounts_anchor (asked : r.storeOnChain = true) {wire shown publicKeyHash : Text} {metadata : Metadata}
    (printed : metadataText metadata = .ok shown) (g : Counters → Counters) :
    Accounts identity r (do
      let a ← anchor ⟨identity, r.fieldName, wire, shown⟩
      count g
      return ⟨r.fieldName, wire, metadata, publicKeyHash, a.1, a.2⟩) := by
  intro s
  cases present : s.ledger with
  | none =>
    have absent : s.client? = none := by
      rw [client?, present]
      rfl
    rw [run_bind_of_ok (run_anchor_of_none present _)]
    exact ⟨[], SameLedger.gains ⟨rfl, rfl⟩, .absent asked absent rfl rfl⟩
  | some l =>
    have client : s.client? = some l.client := by
      rw [client?, present]
      rfl
    have gains := gains_add present ⟨identity, r.fieldName, wire, shown⟩
    have run := run_anchor present ⟨identity, r.fieldName, wire, shown⟩
    -- What the field is owed depends on the ledger's reply.
    cases answered : l.client l.calls ⟨identity, r.fieldName, wire, shown⟩ with
    | anchored reference =>
      rw [answered] at gains run
      rw [run_bind_of_ok run]
      exact ⟨_, gains.of_same ⟨rfl, rfl⟩, .anchored asked client printed answered rfl rfl⟩
    | failed kept f =>
      rw [answered] at gains run
      obtain ⟨e, rfl, anchoring, told⟩ | refused := ofAnswer_error f
      · rw [Reply.answer, told] at run
        rw [run_bind_of_ok run]
        exact ⟨_, gains.of_same ⟨rfl, rfl⟩, .reported asked client printed answered anchoring rfl rfl⟩
      · rw [Reply.answer, refused] at run
        rw [run_bind, run]
        refine ⟨_, gains, ?_⟩
        cases kept with
        | true => exact .failedAfter asked
        | false => exact .failed

theorem accounts_encryptAs (keys : KeyPair) (format : Wire.Format) (r : EncryptionRequest) (plaintext : Bytes) :
    Accounts o.identity r (encryptAs o keys format r plaintext) := by
  refine .bind .get fun s => .bind (.pureResult _) fun p => .bind (keeps_runPooled _) fun c => ?_
  refine .bind (.pureResult _) fun wire => .bind (keeps_metadataOf _ _ _ _ _) fun metadata => ?_
  cases asked : r.storeOnChain with
  | true => exact .bind_pureResult fun shown printed => accounts_anchor asked printed _
  | false => exact fun s => ⟨[], SameLedger.gains ⟨rfl, rfl⟩, .unasked asked rfl rfl⟩

/-! ## 4. Many fields -/

/-- What became of several fields, and what the ledger has gained by them one after the other. -/
inductive HonoursAll (client : Option LedgerClient) (identity : Text) :
    List EncryptionRequest → List (Except Failure EncryptedField) → List Anchor → Prop
  | nil : HonoursAll client identity [] [] []
  | cons {r : EncryptionRequest} {rs : List EncryptionRequest} {x : Except Failure EncryptedField}
      {xs : List (Except Failure EncryptedField)} {gained more : List Anchor}
      (first : Honours client identity r x gained) (rest : HonoursAll client identity rs xs more) :
      HonoursAll client identity (r :: rs) (x :: xs) (gained ++ more)

/-- Whose field of which name an anchor is. -/
def subject (a : Anchor) : Text × Text := (a.identity, a.fieldName)

/-- The fields that are to be anchored. -/
def wanted (identity : Text) (rs : List EncryptionRequest) : List (Text × Text) :=
  (rs.filter (·.storeOnChain)).map fun r => (identity, r.fieldName)

theorem wanted_cons_of_asked (asked : r.storeOnChain = true) (rs : List EncryptionRequest) :
    wanted identity (r :: rs) = (identity, r.fieldName) :: wanted identity rs := by
  rw [wanted, List.filter_cons_of_pos asked]
  rfl

/-- Nothing is anchored that was not to be anchored, and nothing twice. -/
theorem Honours.subjects {client : Option LedgerClient} {x : Except Failure EncryptedField} {gained : List Anchor}
    (honours : Honours client identity r x gained) : (gained.map subject).Sublist (wanted identity [r]) := by
  cases honours with
  | unasked => exact List.nil_sublist _
  | anchored asked =>
    rw [wanted_cons_of_asked asked]
    exact .refl _
  | absent => exact List.nil_sublist _
  | @reported _ _ _ _ kept _ asked =>
    rw [wanted_cons_of_asked asked]
    cases kept with
    | true => exact .refl _
    | false => exact List.nil_sublist _
  | failed => exact List.nil_sublist _
  | failedAfter asked =>
    rw [wanted_cons_of_asked asked]
    exact .refl _

theorem HonoursAll.subjects {client : Option LedgerClient} {xs : List (Except Failure EncryptedField)}
    {gained : List Anchor} (honours : HonoursAll client identity rs xs gained) :
    (gained.map subject).Sublist (wanted identity rs) := by
  induction honours with
  | nil => exact .refl _
  | @cons r rs _ _ _ _ first _ ih =>
    have split : wanted identity (r :: rs) = wanted identity [r] ++ wanted identity rs := by
      rw [wanted, ← List.singleton_append, List.filter_append, List.map_append]
      rfl
    rw [List.map_append, split]
    exact first.subjects.append ih

/-- Fields that are encrypted one after the other, each with its keys and its plaintext. -/
theorem honoursAll_mapM {ps : List Prepared} {xs : List (Except Failure EncryptedField)}
    (h : (ps.mapM fun (k, r, plaintext) => outcome (encryptAs o k format r plaintext)).run s = (.ok xs, s')) :
    ∃ gained, Gains gained s s' ∧ HonoursAll s.client? o.identity (ps.map (·.2.1)) xs gained := by
  -- Induction on the fields; the ledger's client is the same for all of them.
  induction ps generalizing s xs with
  | nil =>
    obtain ⟨same, rfl⟩ := Prod.mk.inj h
    obtain rfl := Except.ok.inj same
    exact ⟨[], .refl _, .nil⟩
  | cons p ps ih =>
    rw [List.mapM_cons] at h
    obtain ⟨x, s₁, first, h⟩ := run_bind_eq_ok h
    obtain ⟨xs, s₂, rest, h⟩ := run_bind_eq_ok h
    obtain ⟨same, rfl⟩ := Prod.mk.inj h
    obtain rfl := Except.ok.inj same
    obtain ⟨gained, gains, honours⟩ := accounts_encryptAs p.1 format p.2.1 p.2.2 s
    obtain ⟨told, left⟩ := Prod.mk.inj ((run_outcome _ _).symm.trans first)
    rw [left] at gains
    rw [Except.ok.inj told] at honours
    obtain ⟨more, gains', honours'⟩ := ih rest
    rw [gains.client_eq] at honours'
    exact ⟨_, gains.trans gains', .cons honours honours'⟩

/-! ## 5. Requests -/

theorem sublist_prepared (keys : List (Except Failure KeyPair)) (rs : List EncryptionRequest) :
    (((List.zipWith prepareField keys rs).filterMap Except.toOption).map (·.2.1)).Sublist rs := by
  induction keys generalizing rs with
  | nil => exact List.nil_sublist rs
  | cons key keys ih =>
    cases rs with
    | nil => exact .refl _
    | cons r rs =>
      rw [List.zipWith_cons_cons]
      cases prepared : prepareField key r with
      | error e => exact (ih rs).cons r
      | ok p =>
        obtain ⟨-, rfl, -⟩ := prepareField_eq_ok prepared
        exact (ih rs).cons_cons p.2.1

/-- What a step that leaves the ledger as it is comes to: the failure of all, or a state to go on from. -/
theorem fails_or_goes_on {α β : Type} {s₀ : Service} (before : SameLedger s₀ s) {m : ServiceM α}
    {f : α → ServiceM β} {x : Except Failure β} (keeps : Keeps SameLedger m) (h : (m >>= f).run s = (x, s'')) :
    ((∃ e, x = .error e) ∧ SameLedger s₀ s'') ∨
      ∃ a s', m.run s = (.ok a, s') ∧ SameLedger s₀ s' ∧ (f a).run s' = (x, s'') := by
  rw [run_bind] at h
  rcases run : m.run s with ⟨y, s'⟩
  have same : SameLedger s₀ s' := IsTrans.trans _ _ _ before (keeps.of_run run)
  rw [run] at h
  cases y with
  | error e =>
    obtain ⟨rfl, rfl⟩ := Prod.mk.inj h
    exact .inl ⟨⟨e, rfl⟩, same⟩
  | ok a => exact .inr ⟨a, s', rfl, same, h⟩

/-- A loop over outcomes ends, whatever they are. -/
theorem exists_run_mapM_outcome {α β : Type} (f : α → ServiceM β) (l : List α) (s : Service) :
    ∃ xs s', (l.mapM fun a => outcome (f a)).run s = (.ok xs, s') := by
  induction l generalizing s with
  | nil => exact ⟨[], s, rfl⟩
  | cons a l ih =>
    obtain ⟨xs, s', rest⟩ := ih ((f a).run s).2
    refine ⟨((f a).run s).1 :: xs, s', ?_⟩
    rw [List.mapM_cons, run_bind_of_ok (run_outcome (f a) s), run_bind_of_ok rest]
    rfl

/-- Some of the fields are worked on, and all of them if the batch is answered. -/
theorem honoursAll_encryptAll {x : Except Failure (List EncryptedField)}
    (h : (encryptAll o format rs).run s = (x, s')) :
    ∃ rs' xs gained, rs'.Sublist rs ∧ Gains gained s s' ∧ HonoursAll s.client? o.identity rs' xs gained ∧
      ∀ fs, x = .ok fs → rs' = rs ∧ xs = fs.map .ok := by
  obtain ⟨⟨e, rfl⟩, same⟩ | ⟨keys, s₁, told, same, h⟩ := fails_or_goes_on (Std.Refl.refl s) (Framed.askAll _) h
  · exact ⟨[], [], [], List.nil_sublist rs, same.gains, .nil, fun _ h => nomatch h⟩
  · dsimp only at h
    obtain ⟨xs, s₂, worked⟩ := exists_run_mapM_outcome (fun p : Prepared => encryptAs o p.1 format p.2.1 p.2.2)
      ((List.zipWith prepareField keys rs).filterMap Except.toOption) s₁
    obtain ⟨gained, gains, honours⟩ := honoursAll_mapM worked
    rw [same.client_eq] at honours
    rw [run_bind_of_ok worked] at h
    refine ⟨_, xs, gained, sublist_prepared keys rs, ?_, honours, fun fs answered => ?_⟩
    · -- What is left to do is to look for failures.
      have left : s₂ = s' := by
        rw [run_bind, run_pureResult] at h
        cases failures : (List.zipWith prepareField keys rs).mapM id with
        | error e =>
          rw [failures] at h
          exact (Prod.mk.inj h).2
        | ok ps =>
          rw [failures] at h
          exact (Prod.mk.inj h).2
      rw [← left]
      exact same.gains.trans gains
    · subst answered
      obtain ⟨ps, s₃, ready, h⟩ := run_bind_eq_ok h
      have all := Outcome.mapM_id_eq_ok (Prod.mk.inj ready).1
      have finished := Outcome.mapM_id_eq_ok (Prod.mk.inj h).1
      obtain ⟨store, -, rfl, -⟩ := withKeys_eq_ok told
      refine ⟨(sublist_prepared _ rs).eq_of_length ?_, finished⟩
      have lengths := congrArg List.length all
      rw [List.length_zipWith, Custody.length_askAll, List.length_map, Nat.min_self, List.length_map] at lengths
      rw [all, Outcome.filterMap_toOption_ok, List.length_map, ← lengths]

/-- A request of one field is accounted for, unless it fails before the field is worked on. -/
theorem honours_encryptField {x : Except Failure EncryptedField}
    (h : (encryptField user request).run s = (x, s')) :
    ((∃ e, x = .error e) ∧ SameLedger s s') ∨ ∃ r identity gained, EncryptionRequest.check request = .ok r ∧
      (Entries.get? s.users user).filter (!·.isEmpty) = some identity ∧ Gains gained s s' ∧
      Honours s.client? identity r x gained := by
  obtain early | ⟨r, s₁, accepted, same, h⟩ := fails_or_goes_on (Std.Refl.refl s) (keeps_accept _ _) h
  · exact .inl early
  obtain early | ⟨⟨⟩, s₂, -, same, h⟩ := fails_or_goes_on same Framed.start h
  · exact .inl early
  obtain early | ⟨identity, s₃, named, same, h⟩ := fails_or_goes_on same (keeps_identityOf _) h
  · exact .inl early
  obtain ⟨rfl, known⟩ := identityOf_eq_ok named
  rw [same.users_eq] at known
  -- The rest is about the one field.
  have accounts : Accounts identity r (do
      let o : Owner := ⟨identity, ← schemeOf r.scheme⟩
      let keys ← keysFor .create o
      let plaintext ← pureResult (FieldValue.prepare r.value r.dataType)
      encryptAs o keys .serialized r plaintext) :=
    .bind (keeps_schemeOf _) fun scheme => .bind (keeps_keysFor _ _) fun keys => .bind (.pureResult _) fun plaintext =>
      accounts_encryptAs (o := ⟨identity, scheme⟩) keys .serialized r plaintext
  obtain ⟨gained, gains, honours⟩ := accounts s₂
  rw [h] at gains honours
  rw [same.client_eq] at honours
  exact .inr ⟨r, identity, gained, (accept_eq_ok accepted).1, known, same.gains.trans gains, honours⟩

/-- A batch is accounted for field by field, unless it fails before or is packed. -/
theorem honours_encryptBatch {x : Except Failure EncryptedBatch} (h : (encryptBatch user request).run s = (x, s')) :
    (((∃ e, x = .error e) ∨ ∃ p, x = .ok (.packed p)) ∧ s'.ledger = s.ledger) ∨
      ∃ b identity rs xs gained, BatchEncryption.check request = .ok b ∧
        (Entries.get? s.users user).filter (!·.isEmpty) = some identity ∧ rs.Sublist b.fields ∧ Gains gained s s' ∧
        HonoursAll s.client? identity rs xs gained ∧
        ∀ batch, x = .ok batch → ∃ fs, batch = .fields fs ∧ rs = b.fields ∧ xs = fs.map .ok := by
  obtain early | ⟨b, s₁, accepted, same, h⟩ := fails_or_goes_on (Std.Refl.refl s) (keeps_accept _ _) h
  · exact .inl ⟨.inl early.1, early.2.ledger_eq⟩
  obtain early | ⟨identity, s₂, admitted, same, h⟩ := fails_or_goes_on same (keeps_admitBatch _ _) h
  · exact .inl ⟨.inl early.1, early.2.ledger_eq⟩
  have known : (Entries.get? s.users user).filter (!·.isEmpty) = some identity := by
    obtain ⟨⟨⟩, s₃, -, admitted⟩ := run_bind_eq_ok admitted
    obtain ⟨⟨⟩, s₄, -, named⟩ := run_bind_eq_ok admitted
    obtain ⟨rfl, known⟩ := identityOf_eq_ok named
    rw [same.users_eq] at known
    exact known
  obtain early | ⟨scheme, s₃, -, same, h⟩ := fails_or_goes_on same (keeps_schemeOf _) h
  · exact .inl ⟨.inl early.1, early.2.ledger_eq⟩
  dsimp only at h
  split at h
  case isTrue =>
    obtain early | ⟨p, s₄, -, same, h⟩ := fails_or_goes_on same (keeps_encryptPacked _ _ _) h
    · exact .inl ⟨.inl early.1, early.2.ledger_eq⟩
    · obtain ⟨rfl, rfl⟩ := Prod.mk.inj h
      exact .inl ⟨.inr ⟨p, rfl⟩, same.ledger_eq⟩
  case isFalse =>
    rw [run_bind] at h
    rcases run : (encryptAll ⟨identity, scheme⟩ (if b.compressed then .compressed else .serialized) b.fields).run s₃
      with ⟨y, s₄⟩
    obtain ⟨rs, xs, gained, some, gains, honours, all⟩ := honoursAll_encryptAll run
    rw [same.client_eq] at honours
    rw [run] at h
    -- The answer is made of the fields, if there is one.
    cases y with
    | error e =>
      obtain ⟨rfl, rfl⟩ := Prod.mk.inj h
      exact .inr ⟨b, identity, rs, xs, gained, (accept_eq_ok accepted).1, known, some, same.gains.trans gains, honours,
        fun _ answered => nomatch answered⟩
    | ok fs =>
      obtain ⟨rfl, rfl⟩ := Prod.mk.inj h
      refine .inr ⟨b, identity, rs, xs, gained, (accept_eq_ok accepted).1, known, some, same.gains.trans gains, honours,
        fun batch answered => ⟨fs, (Except.ok.inj answered).symm, all fs rfl⟩⟩

/-! ## 6. The account -/

/-- Every field that is encrypted by itself is accounted for, alone or in a batch: what was to be anchored is
on the ledger once, with its reference in the answer, or the answer tells why not. A packed batch leaves the
ledger as it is. Whatever a request comes to, only fields that are to be anchored are, at most once each. -/
theorem anchoring_account (s : Service) (user : Text) (request : Value) :
    (∀ f s', (encryptField user request).run s = (.ok f, s') → ∃ r identity gained,
      EncryptionRequest.check request = .ok r ∧ (Entries.get? s.users user).filter (!·.isEmpty) = some identity ∧
        Gains gained s s' ∧ Honours s.client? identity r (.ok f) gained) ∧
    (∀ fs s', (encryptBatch user request).run s = (.ok (.fields fs), s') → ∃ b identity gained,
      BatchEncryption.check request = .ok b ∧ (Entries.get? s.users user).filter (!·.isEmpty) = some identity ∧
        Gains gained s s' ∧ HonoursAll s.client? identity b.fields (fs.map .ok) gained) ∧
    (∀ p s', (encryptBatch user request).run s = (.ok (.packed p), s') → s'.ledger = s.ledger) ∧
    (∀ x s', (encryptField user request).run s = (x, s') → s'.ledger = s.ledger ∨ ∃ r identity gained,
      EncryptionRequest.check request = .ok r ∧ (Entries.get? s.users user).filter (!·.isEmpty) = some identity ∧
        Gains gained s s' ∧ (gained.map subject).Sublist (wanted identity [r])) ∧
    (∀ x s', (encryptBatch user request).run s = (x, s') → s'.ledger = s.ledger ∨ ∃ b identity gained,
      BatchEncryption.check request = .ok b ∧ (Entries.get? s.users user).filter (!·.isEmpty) = some identity ∧
        Gains gained s s' ∧ (gained.map subject).Sublist (wanted identity b.fields)) := by
  refine ⟨fun f s' h => ?_, fun fs s' h => ?_, fun p s' h => ?_, fun x s' h => ?_, fun x s' h => ?_⟩
  · obtain ⟨⟨e, failed⟩, -⟩ | account := honours_encryptField h
    · cases failed
    · exact account
  · obtain ⟨⟨e, other⟩ | ⟨p, other⟩, -⟩ | ⟨b, identity, rs, xs, gained, checked, known, -, gains, honours, all⟩ :=
      honours_encryptBatch h
    · cases other
    · cases other
    · obtain ⟨fs', same, rfl, rfl⟩ := all _ rfl
      obtain rfl := EncryptedBatch.fields.inj same
      exact ⟨b, identity, gained, checked, known, gains, honours⟩
  · obtain ⟨-, kept⟩ | ⟨_, _, _, _, _, -, -, -, -, -, all⟩ := honours_encryptBatch h
    · exact kept
    · obtain ⟨fs, other, -⟩ := all _ rfl
      cases other
  · obtain ⟨-, same⟩ | ⟨r, identity, gained, checked, known, gains, honours⟩ := honours_encryptField h
    · exact .inl same.ledger_eq
    · exact .inr ⟨r, identity, gained, checked, known, gains, honours.subjects⟩
  · obtain ⟨-, kept⟩ | ⟨b, identity, rs, xs, gained, checked, known, some, gains, honours, -⟩ := honours_encryptBatch h
    · exact .inl kept
    · exact .inr ⟨b, identity, gained, checked, known, gains, honours.subjects.trans ((some.filter _).map _)⟩

/-- A ledger whose references are the numbers of the calls. -/
def numbering : Ledger where
  client n _ := .anchored (Text.ofInt n)
  calls := 0
  anchors := []

/-- The service of one user, with a ledger. -/
def anchoringAlice (l : Ledger) : Service := { ofAlice with ledger := some l }

/-- Two numbers of which the first is to be anchored. -/
def mixed : List EncryptionRequest :=
  [⟨"a", .float 1.5, "number", none, none, false, true⟩, ⟨"b", .float 2.5, "number", none, none, false, false⟩]

def batching (rs : List EncryptionRequest) : Value :=
  .dict [("fields", .list (rs.map fun r => .dict r.toEntries)), ("common_scheme", .text "bfv")]

/-- Is the answer a batch of fields? -/
def answersFields : Except Failure EncryptedBatch → Bool
  | .ok (.fields _) => true
  | _ => false

theorem anchoring_account_mixed : ∃ f g s' a,
    (encryptBatch "alice" (batching mixed)).run ((anchoringAlice numbering).after [.start])
        = (.ok (.fields [f, g]), s') ∧
      s'.onLedger = [a] ∧ a.fieldName = "a" ∧ a.wire = f.encryptedValue ∧
      f.transactionReference.isSome = true ∧ g.transactionReference = none := by
  have checked : BatchEncryption.check (batching mixed) = .ok ⟨mixed, some .bfv, false, false⟩ := rfl
  have started : SameLedger (anchoringAlice numbering) ((anchoringAlice numbering).after [.start]) := Framed.start _
  have answered : answersFields ((encryptBatch "alice" (batching mixed)).run
      ((anchoringAlice numbering).after [.start])).1 = true := by decide +kernel
  rcases done : (encryptBatch "alice" (batching mixed)).run ((anchoringAlice numbering).after [.start])
    with ⟨f | batch, s'⟩
  · rw [done] at answered
    cases answered
  · cases batch with
    | packed p =>
      rw [done] at answered
      cases answered
    | fields fs =>
      obtain ⟨b, identity, gained, same, -, gains, honours⟩ := (anchoring_account _ _ _).2.1 fs s' done
      obtain rfl := Checked.ok.inj (checked.symm.trans same)
      have onLedger_eq : s'.onLedger = gained := by
        rw [gains.onLedger_eq, onLedger, started.ledger_eq]
        rfl
      rw [started.client_eq] at honours
      rcases fs with _ | ⟨f, _ | ⟨g, _ | ⟨h, fs⟩⟩⟩
      · cases honours
      · cases honours with | cons _ rest => cases rest
      · obtain _ | ⟨first, rest⟩ := honours
        obtain _ | ⟨second, last⟩ := rest
        cases last
        -- The ledger answers every call, so that the first number has a reference.
        cases first with
        | unasked unasked => cases unasked
        | absent _ absent => cases absent
        | reported _ present _ answered =>
          obtain rfl := Option.some.inj present
          cases answered
        | anchored _ _ _ _ told =>
          cases second with
          | unasked _ noReference =>
            refine ⟨f, g, s', _, rfl, onLedger_eq, rfl, rfl, ?_, noReference⟩
            rw [told]
            rfl
          | anchored asked => cases asked
          | absent asked => cases asked
          | reported asked => cases asked
      · cases honours with | cons _ rest => cases rest with | cons _ rest => cases rest

/-- Two numbers that are to be anchored. -/
def anchoredHalves : List EncryptionRequest := halves.map fun r => { r with storeOnChain := true }

/-- A packed batch is answered, and its fields are not anchored. -/
theorem packed_not_anchored : ∃ p s',
    (encryptBatch "alice" (packing anchoredHalves)).run ((anchoringAlice .inMemory).after [.start])
        = (.ok (.packed p), s') ∧
      BatchEncryption.check (packing anchoredHalves) = .ok ⟨anchoredHalves, some .bfv, true, false⟩ ∧
      (∀ r ∈ anchoredHalves, r.storeOnChain = true) ∧ s'.onLedger = [] := by
  have packed : answersPacked ((encryptBatch "alice" (packing anchoredHalves)).run
      ((anchoringAlice .inMemory).after [.start])).1 = true := by decide +kernel
  have nothing : ((encryptBatch "alice" (packing anchoredHalves)).run
      ((anchoringAlice .inMemory).after [.start])).2.onLedger = [] := by decide +kernel
  have asked : ∀ r ∈ anchoredHalves, r.storeOnChain = true := by
    intro r hr
    obtain ⟨-, -, rfl⟩ := List.mem_map.1 hr
    rfl
  rcases done : (encryptBatch "alice" (packing anchoredHalves)).run ((anchoringAlice .inMemory).after [.start])
    with ⟨f | batch, s'⟩
  · rw [done] at packed
    cases packed
  · rw [done] at packed nothing
    cases batch with
    | fields fields => cases packed
    | packed p => exact ⟨p, s', rfl, rfl, asked, nothing⟩

end SealedFields.Service
