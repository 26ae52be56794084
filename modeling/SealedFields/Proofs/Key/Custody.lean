import SealedFields.Proofs.Key.Order
import SealedFields.Proofs.Key.Records

/-!
# What a key store keeps true

The cache holds keys that are in custody, each load under way is one of the cache's, and there is no
record but its own for an owner whose keys a load is storing: records stay as they were first stored.
-/

namespace SealedFields.Custody

variable {c c' : Custody} {l m : KeyLoad} {o : Owner} {keys keys' : KeyPair}
  {answer : CustodianAnswer}

/-! ## 1. The invariant -/

def record? (c : Custody) (o : Owner) : Option KeyRecord := Entries.get? c.custodian.records o

/-- The keys of an owner in custody. -/
def Holds (c : Custody) (o : Owner) (keys : KeyPair) : Prop :=
  ∃ r, c.record? o = some r ∧ openRecord c.store.wrapper o r = .ok keys

theorem Holds.unique (h : c.Holds o keys) (h' : c.Holds o keys') : keys = keys' := by
  obtain ⟨r, hr, opens⟩ := h
  obtain ⟨r', hr', opens'⟩ := h'
  obtain rfl := Option.some.inj (hr.symm.trans hr')
  exact Except.ok.inj (opens.symm.trans opens')

/-- Keys in custody of a key store whose policy lets it look for them. -/
def Serves (c : Custody) (o : Owner) (keys : KeyPair) : Prop :=
  c.Holds o keys ∧ 0 ≤ c.store.policy.maxRetries

/-- What custody holds it goes on holding, under the same master key and policy. -/
structure Grows (c c' : Custody) : Prop where
  wrapper_eq : c'.store.wrapper = c.store.wrapper
  policy_eq : c'.store.policy = c.store.policy
  records : ∀ {o r}, c.record? o = some r → c'.record? o = some r

theorem Grows.refl (c : Custody) : Grows c c := ⟨rfl, rfl, id⟩

theorem Grows.trans {c'' : Custody} (h : Grows c c') (h' : Grows c' c'') : Grows c c'' :=
  ⟨h'.wrapper_eq.trans h.wrapper_eq, h'.policy_eq.trans h.policy_eq, fun hr => h'.records (h.records hr)⟩

theorem Grows.of_eq (custodian_eq : c'.custodian = c.custodian)
    (wrapper_eq : c'.store.wrapper = c.store.wrapper) (policy_eq : c'.store.policy = c.store.policy) :
    Grows c c' where
  wrapper_eq := wrapper_eq
  policy_eq := policy_eq
  records := by
    unfold record?
    rw [custodian_eq]
    exact id

theorem Holds.mono (h : c.Holds o keys) (grows : Grows c c') : c'.Holds o keys := by
  obtain ⟨r, hr, opens⟩ := h
  refine ⟨r, grows.records hr, ?_⟩
  rw [grows.wrapper_eq]
  exact opens

theorem Serves.mono (h : c.Serves o keys) (grows : Grows c c') : c'.Serves o keys := by
  refine ⟨h.1.mono grows, ?_⟩
  rw [grows.policy_eq]
  exact h.2

/-- Only who may create keys stores any; they are sealed in the record, and there is no other record. -/
def PhaseSound (c : Custody) (o : Owner) (errand : Errand) (phase : Phase) : Prop :=
  ∀ n keys r, phase = .storing n keys r →
    errand = .create ∧ Seals c.store.wrapper o keys r ∧ ∀ r', c.record? o = some r' → r' = r

/-- The invariant. -/
structure Sound (c : Custody) : Prop where
  exact : c.entropy.Exact
  opened : c.store.keyCache.closed = false
  tidy : c.store.keyCache.Tidy
  mirrored : (c.store.loads.map fun l => (l.id, l.owner, l.errand))
    = c.store.keyCache.loads.map fun m => (m.id, m.key, m.flight)
  entries : ∀ e ∈ c.store.keyCache.entries, ∃ keys, e.2.value = some keys ∧ c.Serves e.1 keys
  phases : ∀ l ∈ c.store.loads, c.PhaseSound l.owner l.errand l.phase

namespace Sound

theorem orderly (sound : c.Sound) : c.Orderly := ⟨sound.opened, sound.tidy, sound.mirrored⟩

theorem load_ext (sound : c.Sound) (hl : l ∈ c.store.loads) (hm : m ∈ c.store.loads)
    (id_eq : l.id = m.id) : l = m := List.inj_on_of_nodup_map sound.orderly.ids hl hm id_eq

theorem slot_ext (sound : c.Sound) (hl : l ∈ c.store.loads) (hm : m ∈ c.store.loads)
    (owner_eq : l.owner = m.owner) (errand_eq : l.errand = m.errand) : l = m :=
  List.inj_on_of_nodup_map sound.orderly.slots hl hm (by rw [owner_eq, errand_eq])

/-- Nothing that the invariant speaks of has changed but the records, which grow. -/
theorem of_grows (sound : c.Sound) (grows : Grows c c') (source_eq : c'.entropy.source = c.entropy.source)
    (cache_eq : c'.store.keyCache = c.store.keyCache) (loads_eq : c'.store.loads = c.store.loads)
    (phases : ∀ l ∈ c.store.loads, c'.PhaseSound l.owner l.errand l.phase) : c'.Sound where
  exact := by
    intro k n
    rw [source_eq]
    exact sound.exact k n
  opened := by
    rw [cache_eq]
    exact sound.opened
  tidy := by
    rw [cache_eq]
    exact sound.tidy
  mirrored := by
    rw [cache_eq, loads_eq]
    exact sound.mirrored
  entries := by
    rw [cache_eq]
    intro e he
    obtain ⟨keys, hv, held⟩ := sound.entries e he
    exact ⟨keys, hv, held.mono grows⟩
  phases := by
    rw [loads_eq]
    exact phases

end Sound

/-- A new key store has nothing under way and nothing cached. -/
theorem new_eq_ok {wrapper : KeyWrapper} {keyTtl bootstrapTtl : Float} {maxRetries : Int} {s : KeyStore}
    (new : KeyStore.new wrapper keyTtl bootstrapTtl maxRetries = .ok s) :
    s.wrapper = wrapper ∧ s.policy = KeyStore.custodyPolicy maxRetries ∧ s.loads = [] ∧
      s.keyCache = ⟨"key-cache", keyTtl, [], [], 0, false, 0, 0⟩ := by
  obtain ⟨keyCache, hk, new⟩ := Outcome.bind_eq_ok_iff.1 new
  obtain ⟨bootstrapCache, -, new⟩ := Outcome.bind_eq_ok_iff.1 new
  obtain rfl := Except.ok.inj new
  unfold Cache.empty at hk
  split at hk
  case isTrue => cases hk
  case isFalse =>
    obtain rfl := Except.ok.inj hk
    exact ⟨rfl, rfl, rfl, rfl⟩

theorem sound_new (exact : c.entropy.Exact) {wrapper : KeyWrapper} {keyTtl bootstrapTtl : Float}
    {maxRetries : Int} (new : KeyStore.new wrapper keyTtl bootstrapTtl maxRetries = .ok c.store) :
    c.Sound := by
  obtain ⟨-, -, loads, cache⟩ := new_eq_ok new
  refine ⟨exact, by rw [cache], cache ▸ Cache.tidy_empty keyTtl "key-cache", ?_, ?_, ?_⟩
  · rw [loads, cache]
    rfl
  · rw [cache]
    exact fun _ h => by cases h
  · rw [loads]
    exact fun _ h => by cases h

/-! ## 2. Requests -/

theorem grows_request (errand : Errand) (o : Owner) (caller : Nat) (c : Custody) :
    Grows c (c.request errand o caller).2 := ⟨rfl, rfl, id⟩

theorem Sound.request (sound : c.Sound) (errand : Errand) (o : Owner) (caller : Nat) :
    (c.request errand o caller).2.Sound := by
  have spec := Cache.request_spec c.now o errand caller c.store.keyCache
  obtain ⟨opened, tidy, mirrored⟩ := sound.orderly.request errand o caller
  refine ⟨sound.exact, opened, tidy, mirrored, ?_, ?_⟩
  · -- Entries that a lookup drops are the expired ones; the others stay.
    have live : ∀ e ∈ (c.store.keyCache.purge c.now).2.entries, e ∈ c.store.keyCache.entries :=
      fun e he => (Cache.mem_entries_purge.1 he).1
    show ∀ e ∈ (c.store.keyCache.request c.now o errand caller).2.entries,
      ∃ keys, e.2.value = some keys ∧ c.Serves e.1 keys
    generalize (c.store.keyCache.request c.now o errand caller).1 = reply at spec
    generalize (c.store.keyCache.request c.now o errand caller).2 = keyCache at spec ⊢
    cases spec with
    | refused => exact sound.entries
    | hit => exact fun e he => sound.entries e (live e he)
    | joins => exact fun e he => sound.entries e (live e he)
    | starts => exact fun e he => sound.entries e (live e he)
  · -- A load that is started looks up first.
    intro l hl
    unfold Custody.request at hl
    dsimp only at hl
    split at hl
    case h_2 => exact sound.phases l hl
    case h_1 =>
      rcases List.mem_append.1 hl with hl | hl
      · exact sound.phases l hl
      · rw [List.mem_singleton.1 hl]
        intro n keys r h
        cases h

/-- A load is added at most, for the owner and errand that were asked for, and the caller starts it. -/
theorem loads_request (errand : Errand) (o : Owner) (caller : Nat) (c : Custody) :
    ∃ more, (c.request errand o caller).2.store.loads = c.store.loads ++ more ∧
      ∀ l ∈ more, l.errand = errand ∧ l.owner = o ∧ (c.request errand o caller).1 = .waits l.id true ∧
        l.phase = .lookingUp 0 := by
  unfold Custody.request
  dsimp only
  split
  case h_1 id reply =>
    refine ⟨_, rfl, fun l hl => ?_⟩
    rw [List.mem_singleton.1 hl]
    exact ⟨rfl, rfl, reply, rfl⟩
  case h_2 => exact ⟨[], (List.append_nil _).symm, by simp⟩

/-- Who waits after a call waited before, or is the caller and waits for what was asked for. -/
theorem waiting_request (orderly : c.Orderly) (errand : Errand) (o : Owner) (caller : Nat) :
    ∀ m ∈ (c.request errand o caller).2.store.keyCache.loads, ∀ call ∈ m.waiting,
      (call = caller ∧ m.flight = errand ∧ m.key = o) ∨
        ∃ m' ∈ c.store.keyCache.loads, call ∈ m'.waiting ∧ m'.flight = m.flight ∧ m'.key = m.key := by
  intro m hm call hc
  have spec := Cache.request_spec c.now o errand caller c.store.keyCache
  have hm : m ∈ (c.store.keyCache.request c.now o errand caller).2.loads := hm
  generalize (c.store.keyCache.request c.now o errand caller).1 = reply at spec
  generalize (c.store.keyCache.request c.now o errand caller).2 = keyCache at spec hm
  cases spec with
  | refused => exact .inr ⟨m, hm, hc, rfl, rfl⟩
  | hit => exact .inr ⟨m, hm, hc, rfl, rfl⟩
  | @joins l _ hl key_eq flight_eq =>
    -- Only the load that is joined has a new caller.
    obtain ⟨m', hm', rfl⟩ := List.mem_map.1 hm
    obtain ⟨-, key_same, flight_same⟩ := Cache.joinedBy_same l.id caller m'
    rw [key_same, flight_same]
    unfold Load.joinedBy at hc
    split at hc
    case isTrue same =>
      rcases List.mem_append.1 hc with hc | hc
      · exact .inr ⟨m', hm', hc, rfl, rfl⟩
      · obtain rfl := orderly.tidy.load_ext hm' hl same
        exact .inl ⟨List.mem_singleton.1 hc, flight_eq, key_eq⟩
    case isFalse => exact .inr ⟨m', hm', hc, rfl, rfl⟩
  | starts =>
    rcases List.mem_append.1 hm with hm | hm
    · exact .inr ⟨m, hm, hc, rfl, rfl⟩
    · obtain rfl := List.mem_singleton.1 hm
      exact .inl ⟨List.mem_singleton.1 hc, rfl, rfl⟩

theorem Sound.hit (sound : c.Sound) {errand : Errand} {caller : Nat}
    (h : (c.request errand o caller).1 = .hit keys) : c.Serves o keys := by
  have spec := Cache.request_spec c.now o errand caller c.store.keyCache
  have h : (c.store.keyCache.request c.now o errand caller).1 = .hit keys := h
  rw [h] at spec
  generalize (c.store.keyCache.request c.now o errand caller).2 = keyCache at spec
  cases spec with
  | hit _ found _ value =>
    obtain ⟨keys', value', held⟩ := sound.entries _ found
    obtain rfl := Option.some.inj (value.symm.trans value')
    exact held

theorem not_isKeyMissing_refused {errand : Errand} {caller : Nat} {f : Failure}
    (h : (c.request errand o caller).1 = .refused f) : ¬ f.IsKeyMissing := by
  have spec := Cache.request_spec c.now o errand caller c.store.keyCache
  have h : (c.store.keyCache.request c.now o errand caller).1 = .refused f := h
  rw [h] at spec
  generalize (c.store.keyCache.request c.now o errand caller).2 = keyCache at spec
  cases spec with
  | refused =>
    rintro ⟨_, _, _, he⟩
    cases he

/-! ## 3. Calls to the custodian -/

/-- What an answer that a load waits for says of the records. -/
def Answered (c : Custody) (l : KeyLoad) : CustodianAnswer → Prop
  | .found (.ok (some r)) => c.record? l.owner = some r ∧ 0 ≤ c.store.policy.maxRetries
  | .found (.ok none) => ∀ n, l.phase = .lookingUp n → l.errand = .create → c.record? l.owner = none
  | .stored (.ok _) =>
    (∀ n keys r, l.phase = .storing n keys r → c.record? l.owner = some r) ∧ 0 ≤ c.store.policy.maxRetries
  | .found (.error f) | .stored (.error f) => ¬ f.IsKeyMissing

theorem Answered.of_eq (h : c.Answered l answer) (custodian_eq : c'.custodian = c.custodian)
    (policy_eq : c'.store.policy = c.store.policy) : c'.Answered l answer := by
  have same : c'.record? = c.record? := by
    funext o
    rw [record?, custodian_eq, record?]
  unfold Answered at h ⊢
  rw [same, policy_eq]
  exact h

/-- What a call to the custodian leaves unchanged, and what it does to the records. -/
structure Consulted (o : Owner) (phase : Phase) (c c' : Custody) : Prop where
  wrapper_eq : c'.store.wrapper = c.store.wrapper
  policy_eq : c'.store.policy = c.store.policy
  cache_eq : c'.store.keyCache = c.store.keyCache
  loads_eq : c'.store.loads = c.store.loads
  entropy_eq : c'.entropy = c.entropy
  looked : ∀ n, phase = .lookingUp n →
    c'.custodian.stores = c.custodian.stores ∧ c'.custodian.records = c.custodian.records
  stored : ∀ n keys r, phase = .storing n keys r →
    c'.custodian.records = c.custodian.records ∨
      c'.custodian.records = Entries.put r.owner r c.custodian.records

theorem withLabel_same (phase : Phase) (c : Custody) :
    (c.withLabel phase).custodian = c.custodian ∧
      (c.withLabel phase).entropy = c.entropy ∧
      (c.withLabel phase).store.wrapper = c.store.wrapper ∧
      (c.withLabel phase).store.policy = c.store.policy ∧
      (c.withLabel phase).store.keyCache = c.store.keyCache ∧
      (c.withLabel phase).store.loads = c.store.loads := by
  unfold withLabel
  split <;> exact ⟨rfl, rfl, rfl, rfl, rfl, rfl⟩

theorem consulted (o : Owner) (phase : Phase) (c : Custody) :
    Consulted o phase c (consult o phase c).2 := by
  obtain ⟨custodian_eq, entropy_eq, wrapper_eq, policy_eq, cache_eq, loads_eq⟩ := withLabel_same phase c
  -- A lookup leaves the records as they are; a store writes its own record or, out of order, nothing.
  unfold consult
  cases phase with
  | lookingUp n =>
    refine ⟨wrapper_eq, policy_eq, cache_eq, loads_eq, entropy_eq, fun _ _ => ?_, (fun _ _ _ h => by cases h)⟩
    show (Custodian.retrieve o _).2.stores = _ ∧ (Custodian.retrieve o _).2.records = _
    rw [custodian_eq, Custodian.records_retrieve]
    unfold Custodian.retrieve
    split <;> exact ⟨rfl, rfl⟩
  | storing n keys r =>
    refine ⟨wrapper_eq, policy_eq, cache_eq, loads_eq, entropy_eq, (fun _ h => by cases h), ?_⟩
    intro n' keys' r' h
    obtain ⟨-, -, rfl⟩ := Phase.storing.inj h
    show (Custodian.store r _).2.records = _ ∨ (Custodian.store r _).2.records = _
    rw [custodian_eq]
    unfold Custodian.store
    split
    case h_1 => exact .inr rfl
    case h_2 outage _ =>
      cases outage.applied with
      | false => exact .inl rfl
      | true => exact .inr rfl

/-- Storing keys that are sealed in a record changes no other owner's record, and loses none. -/
theorem Consulted.record?_eq (h : Consulted l.owner l.phase c c')
    (phase : c.PhaseSound l.owner l.errand l.phase) (o : Owner) :
    c'.record? o = c.record? o ∨
      o = l.owner ∧ l.errand = .create ∧ ∃ n keys r, l.phase = .storing n keys r ∧ c'.record? o = some r := by
  -- Only a load that stores keys changes records, and then its own owner's.
  cases hp : l.phase with
  | lookingUp n =>
    refine .inl ?_
    unfold record?
    rw [(h.looked n hp).2]
  | storing n keys r =>
    obtain ⟨errand_eq, seals, -⟩ := phase n keys r hp
    rcases h.stored n keys r hp with same | put
    · refine .inl ?_
      unfold record?
      rw [same]
    · by_cases ho : o = l.owner
      · refine .inr ⟨ho, errand_eq, n, keys, r, rfl, ?_⟩
        unfold record?
        rw [put, ho, seals.owner_eq, Entries.get?_put_self]
      · refine .inl ?_
        unfold record?
        rw [put, Entries.get?_put_of_ne (by rw [seals.owner_eq]; exact ho)]

theorem Consulted.grows (h : Consulted l.owner l.phase c c')
    (phase : c.PhaseSound l.owner l.errand l.phase) : Grows c c' where
  wrapper_eq := h.wrapper_eq
  policy_eq := h.policy_eq
  records {o r} hr := by
    rcases h.record?_eq phase o with same | ⟨ho, -, n, keys, r', hp, hr'⟩
    · exact same.trans hr
    · -- A record that was there is the one that is stored again.
      obtain rfl := (phase n keys r' hp).2.2 r (ho ▸ hr)
      exact hr'

/-- Of the loads that may create an owner's keys there is one, so that none but itself stores keys that
it has not. -/
theorem Consulted.other (h : Consulted l.owner l.phase c c') (sound : c.Sound)
    (hl : l ∈ c.store.loads) (hm : m ∈ c.store.loads) (errand_eq : m.errand = .create) (other : m ≠ l) :
    c'.record? m.owner = c.record? m.owner := by
  rcases h.record?_eq (sound.phases l hl) m.owner with same | ⟨owner_eq, create, -⟩
  · exact same
  · exact absurd (sound.slot_ext hm hl owner_eq (errand_eq.trans create.symm)) other

theorem Sound.consult (sound : c.Sound) (hl : l ∈ c.store.loads) :
    (consult l.owner l.phase c).2.Sound := by
  have spec := consulted l.owner l.phase c
  have grows := spec.grows (sound.phases l hl)
  refine sound.of_grows grows (by rw [spec.entropy_eq]) spec.cache_eq spec.loads_eq ?_
  intro m hm n keys r hp
  obtain ⟨errand_eq, seals, alone⟩ := sound.phases m hm n keys r hp
  refine ⟨errand_eq, grows.wrapper_eq ▸ seals, fun r' hr' => ?_⟩
  -- Another load that stores keys has another owner, whose record does not change.
  by_cases same : m = l
  · subst same
    rcases spec.record?_eq (sound.phases m hl) m.owner with kept | ⟨-, -, n', keys', r'', hp', hr''⟩
    · exact alone r' (kept ▸ hr')
    · obtain ⟨-, -, rfl⟩ := Phase.storing.inj (hp.symm.trans hp')
      exact Option.some.inj (hr'.symm.trans hr'')
  · exact alone r' (spec.other sound hl hm errand_eq same ▸ hr')

theorem not_isKeyMissing_failure (call : CustodianCall) (outage : Outage) :
    ¬ (Custodian.failure call outage).IsKeyMissing := by
  rintro ⟨_, _, _, h⟩
  cases h

/-- The answer to a load speaks the truth. -/
theorem answered_consult (l : KeyLoad) (phase : c.PhaseSound l.owner l.errand l.phase)
    (may : c.mayTry l.phase = true) :
    (consult l.owner l.phase c).2.Answered l (consult l.owner l.phase c).1 := by
  have spec := consulted l.owner l.phase c
  -- The custodian was called, so that the policy allows an attempt at least.
  have tries : 0 ≤ (consult l.owner l.phase c).2.store.policy.maxRetries := by
    rw [spec.policy_eq]
    exact Int.le_trans (Int.natCast_nonneg _) (of_decide_eq_true may)
  have same := (withLabel_same l.phase c).1
  cases hp : l.phase with
  | lookingUp n =>
    have kept : (consult l.owner l.phase c).2.record? l.owner = c.record? l.owner := by
      unfold record?
      rw [(spec.looked n hp).2]
    rw [hp] at kept same tries
    have answer : (consult l.owner (.lookingUp n) c).1 = .found (c.custodian.retrieve l.owner).1 := by
      rw [← same]
      rfl
    rw [answer]
    unfold Custodian.retrieve
    cases c.custodian.retrievalOutage c.custodian.retrievals with
    | some outage => exact not_isKeyMissing_failure .retrieve outage
    | none =>
      show Answered _ l (.found (.ok (c.record? l.owner)))
      cases hr : c.record? l.owner with
      | some r => exact ⟨kept.trans hr, tries⟩
      | none => exact fun _ _ _ => kept.trans hr
  | storing n keys r =>
    have owner_eq := (phase n keys r hp).2.1.owner_eq
    rw [hp] at same tries
    have both : consult l.owner (.storing n keys r) c = (.stored (c.custodian.store r).1,
        { c.withLabel (.storing n keys r) with custodian := (c.custodian.store r).2 }) := by
      rw [← same]
      rfl
    rw [both] at tries ⊢
    unfold Custodian.store
    cases c.custodian.storeOutage c.custodian.stores with
    | some outage => exact not_isKeyMissing_failure .store outage
    | none =>
      refine ⟨?_, tries⟩
      intro n' keys' r' hp'
      obtain ⟨-, -, rfl⟩ := Phase.storing.inj (hp.symm.trans hp')
      show Entries.get? (Entries.put r.owner r _) l.owner = some r
      rw [owner_eq, Entries.get?_put_self]

theorem Answered.consult (h : c.Answered l answer) (sound : c.Sound) (hl : l ∈ c.store.loads)
    (hm : m ∈ c.store.loads) (other : l ≠ m) : (consult m.owner m.phase c).2.Answered l answer := by
  have spec := consulted m.owner m.phase c
  have grows := spec.grows (sound.phases m hm)
  -- Records only grow, and that there is none stays true for who may create keys.
  cases answer with
  | found r =>
    cases r with
    | error f => exact h
    | ok r =>
      cases r with
      | some r =>
        obtain ⟨hr, tries⟩ := h
        exact ⟨grows.records hr, grows.policy_eq ▸ tries⟩
      | none =>
        intro n hp create
        rw [spec.other sound hm hl create other]
        exact h n hp create
  | stored r =>
    cases r with
    | error f => exact h
    | ok =>
      obtain ⟨hr, tries⟩ := h
      exact ⟨fun n keys r hp => grows.records (hr n keys r hp), grows.policy_eq ▸ tries⟩

end SealedFields.Custody
