import SealedFields.Proofs.Service.Quiet

/-!
# Opening fields

Between two requests, a field comes to the same whether it is opened alone, together with others or after
them: lookups and decryptions do not change what another field comes to.
-/

namespace SealedFields.Service

variable {s s' s'' : Service}

/-! ## 1. Outcomes -/

def failure? : Except Failure Value → Option Failure
  | .ok _ => none
  | .error f => some f

/-- A failure outside the taxonomy. -/
def outside? : Except Failure Value → Option Failure
  | .ok _ | .error (.field _) => none
  | .error f => some f

/-- An outcome is a value, or a failure in the taxonomy, or one outside. -/
theorem outcome_cases (x : Except Failure Value) :
    (∃ v, x = .ok v) ∨ (∃ e, x = .error (.field e)) ∨ ∃ f, outside? x = some f := by
  cases x with
  | ok v => exact .inl ⟨v, rfl⟩
  | error f =>
    cases f with
    | field e => exact .inr (.inl ⟨e, rfl⟩)
    | _ => exact .inr (.inr ⟨_, rfl⟩)

/-! ## 2. Lookups between requests -/

/-- What a lookup of an owner's keys is told. -/
def told (s : Service) (o : Owner) : Except Failure KeyPair :=
  match s.keys with
  | some store => (s.custody store).answer o
  | none => .error (.closed "key-cache")

/-- A state in which every field comes to what it came to before. -/
structure Undisturbed (s s' : Service) : Prop where
  quiet : s'.Quiet
  keys : s'.keys.isSome
  pool_eq : s'.pool = s.pool
  told_eq : ∀ o, s'.told o = s.told o

theorem undisturbed_withCustody {store : KeyStore} (found : s.keys = some store) {c : Custody} (quiet : c.Quiet)
    (looks : Custody.Looks (s.custody store) c) : Undisturbed s (s.withCustody c) := by
  have same : (s.withCustody c).custody c.store = c := by
    obtain ⟨store', custodian, entropy, now, waits⟩ := c
    obtain rfl : now = s.now := looks.now_eq
    rfl
  refine ⟨⟨quiet.answering, fun store' found' => ?_, fun _ => rfl⟩, rfl, rfl, fun o => ?_⟩
  · obtain rfl := Option.some.inj found'
    rw [same]
    exact quiet
  · show ((s.withCustody c).custody c.store).answer o = _
    unfold told
    rw [same, found]
    exact looks.answer_eq o

theorem run_lookup (quiet : s.Quiet) (keys : s.keys.isSome) (o : Owner) :
    ∃ s', (keysFor .lookup o).run s = (s.told o, s') ∧ Undisturbed s s' := by
  obtain ⟨store, found⟩ := Option.isSome_iff_exists.1 keys
  have quiet := quiet.store store found
  obtain ⟨answer, looks⟩ := Custody.ask_lookup quiet s.keySource o
  refine ⟨_, ?_, undisturbed_withCustody found (quiet.ask s.keySource .lookup o) looks⟩
  unfold keysFor told
  rw [run_bind_of_ok (run_withKeys found _), found, answer]
  rfl

theorem run_lookups (quiet : s.Quiet) (keys : s.keys.isSome) (owners : List Owner) :
    ∃ s', (withKeys fun source c => c.askAll source (owners.map (.lookup, ·))).run s
      = (.ok (owners.map s.told), s') ∧ Undisturbed s s' := by
  obtain ⟨store, found⟩ := Option.isSome_iff_exists.1 keys
  have quiet := quiet.store store found
  obtain ⟨answers, looks⟩ := Custody.askAll_lookups quiet s.keySource owners
  refine ⟨_, ?_, undisturbed_withCustody found (quiet.askAll s.keySource _) looks⟩
  have told_eq : s.told = (s.custody store).answer := by
    funext o
    unfold told
    rw [found]
  rw [run_withKeys found, answers, told_eq]

/-! ## 3. Fields -/

/-- What work comes to that is handed to a pool. -/
def pooled {α : Type} (pool : Option WorkerPool) (work : Except Failure α) : Except Failure α :=
  match pool with
  | some p => p.run (fun _ => work) ()
  | none => .error (.closed "compute pool")

theorem run_runPooled_eq {α : Type} (work : Except Failure α) (s : Service) :
    (runPooled work).run s = (pooled s.pool work, s) := by
  unfold runPooled pooled
  rw [run_bind_of_ok (run_get s)]
  cases s.pool <;> rfl

/-- What a field comes to under given keys. -/
def opened (pool : Option WorkerPool) (r : DecryptionRequest) (keys : KeyPair) : Except Failure Value := do
  let c ← Wire.read r.metadata.encoding r.encryptedValue
  let plaintext ← pooled pool ((Codec.decrypt c keys r.verify).mapError .field)
  (FieldValue.convert plaintext r.dataType).mapError .field

/-- What a field comes to under its owner's keys. -/
def fieldOutcome (s : Service) (identity : Text) (r : DecryptionRequest) : Except Failure Value :=
  s.told (ownerOf identity r) >>= opened s.pool r

theorem Undisturbed.fieldOutcome_eq (same : Undisturbed s s') (identity : Text) :
    s'.fieldOutcome identity = s.fieldOutcome identity := by
  funext r
  unfold fieldOutcome
  rw [same.told_eq, same.pool_eq]

/-- Opening a field is counted, and changes nothing else. -/
theorem run_openField (keys : KeyPair) (r : DecryptionRequest) (s : Service) :
    ∃ counters, (openField keys r).run s = (opened s.pool r keys, { s with counters }) := by
  unfold openField opened
  rw [run_bind, run_pureResult]
  cases Wire.read r.metadata.encoding r.encryptedValue with
  | error f => exact ⟨s.counters, rfl⟩
  | ok c =>
    dsimp only
    rw [run_bind, run_runPooled_eq]
    show ∃ counters, _ = ((pooled s.pool ((Codec.decrypt c keys r.verify).mapError .field) >>= fun plaintext =>
      (FieldValue.convert plaintext r.dataType).mapError .field), { s with counters })
    cases pooled s.pool ((Codec.decrypt c keys r.verify).mapError Failure.field) with
    | error f => exact ⟨s.counters, rfl⟩
    | ok plaintext => exact ⟨_, rfl⟩

theorem run_openOwned (quiet : s.Quiet) (keys : s.keys.isSome) (identity : Text) (r : DecryptionRequest) :
    ∃ s', (openOwned identity r).run s = (s.fieldOutcome identity r, s') ∧ Undisturbed s s' := by
  obtain ⟨s₁, looked, same⟩ := run_lookup quiet keys (ownerOf identity r)
  unfold openOwned fieldOutcome
  rw [run_bind, looked]
  cases s.told (ownerOf identity r) with
  | error f => exact ⟨s₁, rfl, same⟩
  | ok keys =>
    obtain ⟨counters, opens⟩ := run_openField keys r s₁
    have alike : opened s₁.pool r keys = opened s.pool r keys := by rw [same.pool_eq]
    rw [alike] at opens
    exact ⟨_, opens, ⟨same.quiet.of_same rfl rfl rfl, same.keys, same.pool_eq, same.told_eq⟩⟩

/-- Fields whose keys are known are opened one after the other, without a look at the key store. -/
theorem run_openEach (s : Service) (fields : List (Except Failure KeyPair × DecryptionRequest)) :
    ∃ counters, (fields.mapM fun (k, r) => outcome do openField (← pureResult k) r : ServiceM _).run s
      = (.ok (fields.map fun field => field.1 >>= opened s.pool field.2), { s with counters }) := by
  induction fields generalizing s with
  | nil => exact ⟨s.counters, rfl⟩
  | cons field fields ih =>
    obtain ⟨k, r⟩ := field
    obtain ⟨counters, first⟩ : ∃ counters, (do openField (← pureResult k) r : ServiceM Value).run s
        = (k >>= opened s.pool r, { s with counters }) := by
      rw [run_bind, run_pureResult]
      cases k with
      | error f => exact ⟨s.counters, rfl⟩
      | ok keys => exact run_openField keys r s
    obtain ⟨counters', rest⟩ := ih { s with counters }
    refine ⟨counters', ?_⟩
    rw [List.mapM_cons, run_bind]
    dsimp only
    rw [run_outcome, first]
    dsimp only
    rw [run_bind_of_ok rest]
    rfl

/-- Opened together, the fields come to what each of them comes to alone. -/
theorem run_openTogether (quiet : s.Quiet) (keys : s.keys.isSome) (identity : Text) (rs : List DecryptionRequest) :
    ∃ s', (openTogether identity rs).run s = (.ok (rs.map (s.fieldOutcome identity)), s') := by
  obtain ⟨s₁, looked, same⟩ := run_lookups quiet keys (rs.map (ownerOf identity))
  rw [List.map_map] at looked
  obtain ⟨counters, opens⟩ := run_openEach s₁ (((rs.map (ownerOf identity)).map s.told).zip rs)
  have paired : ((rs.map (ownerOf identity)).map s.told).zip rs
      = rs.map fun r => (s.told (ownerOf identity r), r) := by
    have zipped : (rs.map (s.told ∘ ownerOf identity)).zip (rs.map id)
        = rs.map fun r => (s.told (ownerOf identity r), r) := List.zip_map'
    rw [List.map_id] at zipped
    rw [List.map_map]
    exact zipped
  have outcomes : (((rs.map (ownerOf identity)).map s.told).zip rs).map (fun field => field.1 >>= opened s₁.pool field.2)
      = rs.map (s.fieldOutcome identity) := by
    rw [paired, List.map_map, same.pool_eq]
    rfl
  rw [outcomes] at opens
  exact ⟨{ s₁ with counters }, (run_bind_of_ok looked).trans opens⟩

/-- Opened one after the other, they do so too, up to the first failure outside the taxonomy. -/
theorem run_openInTurn (quiet : s.Quiet) (keys : s.keys.isSome) (identity : Text) (rs : List DecryptionRequest) :
    ∃ s', (openInTurn identity rs).run s = (match (rs.map (s.fieldOutcome identity)).findSome? outside? with
      | some f => .error f
      | none => .ok (rs.map (s.fieldOutcome identity)), s') := by
  -- Induction on the fields; opening one of them does not change what the later ones come to.
  induction rs generalizing s with
  | nil => exact ⟨s, rfl⟩
  | cons r rs ih =>
    obtain ⟨s₁, first, same⟩ := run_openOwned quiet keys identity r
    obtain ⟨s₂, rest⟩ := ih same.quiet same.keys
    rw [same.fieldOutcome_eq] at rest
    have begins : (outcome (openOwned identity r)).run s = (.ok (s.fieldOutcome identity r), s₁) := by
      rw [run_outcome, first]
    have goesOn : (do return s.fieldOutcome identity r :: (← openInTurn identity rs) : ServiceM _).run s₁
        = (match (rs.map (s.fieldOutcome identity)).findSome? outside? with
          | some f => .error f
          | none => .ok (s.fieldOutcome identity r :: rs.map (s.fieldOutcome identity)), s₂) := by
      rw [run_bind, rest]
      cases (rs.map (s.fieldOutcome identity)).findSome? outside? <;> rfl
    unfold openInTurn
    rw [run_bind_of_ok begins, List.map_cons, List.findSome?_cons]
    rcases outcome_cases (s.fieldOutcome identity r) with ⟨v, known⟩ | ⟨e, known⟩ | ⟨f, outside⟩
    · rw [known] at goesOn ⊢
      exact ⟨s₂, goesOn⟩
    · rw [known] at goesOn ⊢
      exact ⟨s₂, goesOn⟩
    · rw [outside]
      refine ⟨s₁, ?_⟩
      cases known : s.fieldOutcome identity r with
      | ok v =>
        rw [known] at outside
        cases outside
      | error g =>
        rw [known] at outside
        cases g with
        | field e => cases outside
        | _ =>
          obtain rfl := Option.some.inj outside
          rfl

/-! ## 4. One outcome for each field -/

variable {identity : Text} {rs : List DecryptionRequest} {outcomes : List (Except Failure Value)}

theorem length_openTogether (h : (openTogether identity rs).run s = (.ok outcomes, s')) :
    outcomes.length = rs.length := by
  obtain ⟨keys, s₁, looked, opens⟩ := run_bind_eq_ok h
  obtain ⟨store, found, rfl, -⟩ := withKeys_eq_ok looked
  have each := (mapM_outcome_eq_ok opens).length_eq
  rw [List.length_zip, Custody.length_askAll, List.length_map, Nat.min_self] at each
  exact each.symm

theorem length_openInTurn (h : (openInTurn identity rs).run s = (.ok outcomes, s')) :
    outcomes.length = rs.length := by
  induction rs generalizing s s' outcomes with
  | nil =>
    obtain rfl := Except.ok.inj (Prod.mk.inj h).1
    rfl
  | cons r rs ih =>
    unfold openInTurn at h
    obtain ⟨first, s₁, -, rest⟩ := run_bind_eq_ok h
    have more : (do return first :: (← openInTurn identity rs) : ServiceM _).run s₁ = (.ok outcomes, s') := by
      split at rest
      case h_1 => exact rest
      case h_2 => exact rest
      case h_3 => cases rest
    obtain ⟨others, s₂, opens, last⟩ := run_bind_eq_ok more
    obtain rfl := Except.ok.inj (Prod.mk.inj last).1
    exact congrArg Nat.succ (ih opens)

theorem length_openFields {b : BatchDecryption} (h : (openFields identity b).run s = (.ok outcomes, s')) :
    outcomes.length = b.fields.length := by
  unfold openFields at h
  split at h
  case isTrue => exact length_openTogether h
  case isFalse => exact length_openInTurn h

end SealedFields.Service
