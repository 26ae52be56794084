import SealedFields.Proofs.Key.Lookups
import SealedFields.Proofs.Schema
import SealedFields.Service.Lifecycle

/-!
# What the service's operations keep true

Every request is built from a few operations on the state. What each of them keeps, a request keeps: the
key store stays in order, what custody holds stays there, and a user's identity stays the same.
-/

namespace SealedFields.Service

variable {α β : Type} {s s' s'' : Service}

/-! ## 1. Runs -/

section Runs

variable {m : ServiceM α} {f : α → ServiceM β} {a : α} {b : β} {e : Failure}

theorem run_bind (m : ServiceM α) (f : α → ServiceM β) (s : Service) :
    (m >>= f).run s = match m.run s with
      | (.ok a, s') => (f a).run s'
      | (.error e, s') => (.error e, s') := by
  show (match m.run s with | (r, s') => (ExceptT.bindCont f r : StateM Service _) s') = _
  -- A failure keeps the state it came with, and what follows is not run.
  rcases m.run s with ⟨r, s'⟩
  cases r <;> rfl

theorem run_bind_of_ok (h : m.run s = (.ok a, s')) : (m >>= f).run s = (f a).run s' := by
  rw [run_bind, h]

theorem run_bind_eq_ok (h : (m >>= f).run s = (.ok b, s'')) :
    ∃ a s', m.run s = (.ok a, s') ∧ (f a).run s' = (.ok b, s'') := by
  rw [run_bind] at h
  rcases hm : m.run s with ⟨r, s'⟩
  rw [hm] at h
  cases r with
  | error e => cases h
  | ok a => exact ⟨a, s', rfl, h⟩

/-- A failure is one of the first part, or one of the second part after it. -/
theorem run_bind_eq_error (h : (m >>= f).run s = (.error e, s'')) :
    m.run s = (.error e, s'') ∨ ∃ a s', m.run s = (.ok a, s') ∧ (f a).run s' = (.error e, s'') := by
  rw [run_bind] at h
  rcases hm : m.run s with ⟨r, s'⟩
  rw [hm] at h
  cases r with
  | error e' =>
    obtain ⟨same, rfl⟩ := Prod.mk.inj h
    obtain rfl := Except.error.inj same
    exact .inl rfl
  | ok a => exact .inr ⟨a, s', rfl, h⟩

theorem run_pureResult (r : Except Failure α) (s : Service) : (pureResult r).run s = (r, s) := rfl

theorem run_get (s : Service) : (get : ServiceM Service).run s = (.ok s, s) := rfl

theorem run_outcome (m : ServiceM α) (s : Service) : (outcome m).run s = (.ok (m.run s).1, (m.run s).2) := rfl

/-- Steps that are taken one after the other, each in the state that the one before it left. -/
theorem mapM_outcome_eq_ok {f : α → ServiceM β} {l : List α} {rs : List (Except Failure β)}
    (h : (l.mapM fun a => outcome (f a)).run s = (.ok rs, s')) :
    List.Forall₂ (fun a b => ∃ s₁ s₂, (f a).run s₁ = (b, s₂)) l rs := by
  -- Induction on the list; a step that fails does not end the loop, its failure being an outcome.
  induction l generalizing s s' rs with
  | nil =>
    rw [List.mapM_nil] at h
    obtain rfl := Except.ok.inj (Prod.mk.inj h).1
    exact .nil
  | cons a l ih =>
    rw [List.mapM_cons] at h
    obtain ⟨b, s₁, first, h⟩ := run_bind_eq_ok h
    obtain ⟨bs, s₂, rest, h⟩ := run_bind_eq_ok h
    obtain rfl := Except.ok.inj (Prod.mk.inj h).1
    rw [run_outcome] at first
    obtain ⟨told, left⟩ := Prod.mk.inj first
    exact .cons ⟨s, s₁, Prod.ext (Except.ok.inj told) left⟩ (ih rest)

end Runs

/-! ## 2. Relations that operations keep -/

/-- Whatever an operation comes to, the states before and after it are related. -/
def Keeps (R : Service → Service → Prop) (m : ServiceM α) : Prop := ∀ s, R s (m.run s).2

namespace Keeps

variable {R : Service → Service → Prop} {m : ServiceM α} {f : α → ServiceM β}

theorem modify {g : Service → Service} (related : ∀ s, R s (g s)) :
    Keeps R (modify g : ServiceM PUnit) := related

theorem outcome (hm : Keeps R m) : Keeps R (outcome m) := hm

theorem of_run (hm : Keeps R m) {r : Except Failure α} (h : m.run s = (r, s')) : R s s' := by
  have related := hm s
  rw [h] at related
  exact related

theorem bind [IsTrans Service R] (hm : Keeps R m) (hf : ∀ a, Keeps R (f a)) : Keeps R (m >>= f) := by
  intro s
  have first := hm s
  rw [run_bind]
  rcases h : m.run s with ⟨r, s'⟩
  rw [h] at first
  -- A failure is the end of the operation; otherwise the second part goes on from the state in between.
  cases r with
  | error e => exact first
  | ok a => exact IsTrans.trans _ _ _ first (hf a s')

variable [Std.Refl R]

theorem of_same (same : ∀ s, (m.run s).2 = s) : Keeps R m := by
  intro s
  rw [same]
  exact Std.Refl.refl s

theorem pure (a : α) : Keeps R (pure a : ServiceM α) := of_same fun _ => rfl

theorem throw (e : Failure) : Keeps R (throw e : ServiceM α) := of_same fun _ => rfl

theorem get : Keeps R (get : ServiceM Service) := of_same fun _ => rfl

theorem pureResult (r : Except Failure α) : Keeps R (pureResult r) := of_same fun _ => rfl

variable [IsTrans Service R]

theorem map (g : α → β) (hm : Keeps R m) : Keeps R (g <$> m) := by
  rw [map_eq_pure_bind]
  exact hm.bind fun a => .pure (g a)

theorem mapM {l : List α} (each : ∀ a ∈ l, Keeps R (f a)) : Keeps R (l.mapM f) := by
  induction l with
  | nil =>
    rw [List.mapM_nil]
    exact .pure []
  | cons a l ih =>
    rw [List.mapM_cons]
    refine (each a List.mem_cons_self).bind fun b => ?_
    exact (ih fun a ha => each a (List.mem_cons_of_mem _ ha)).bind fun bs => .pure _

end Keeps

/-! ## 3. What stays true of the state -/

/-- The key store of a service, with what it works with. -/
def custody (s : Service) (store : KeyStore) : Custody := ⟨store, s.custodian, s.entropy, s.now, s.waits⟩

/-- Every key store of the service wraps keys under the same master key. -/
def Wraps (w : KeyWrapper) (s : Service) : Prop :=
  s.wrapper = some w ∨ s.wrapper = none ∧ s.settings.masterKey = .ok (some w.masterKey)

/-- A key store as the settings want it. -/
def NewStore (w : KeyWrapper) (settings : Settings) (store : KeyStore) : Prop :=
  KeyStore.new w settings.keyCacheTtlSeconds settings.bootstrapKeyCacheTtlSeconds
    settings.custodianMaxRetries = .ok store

/-- Settings that a pool and a key store can be made from. -/
structure Startable (w : KeyWrapper) (settings : Settings) : Prop where
  pool : ∃ pool, WorkerPool.new settings.workerPoolSize = .ok pool
  store : ∃ store, NewStore w settings store
  tries : 0 ≤ settings.initMaxRetries

/-- The key store of a service is in order between two requests. -/
structure StoreSound (w : KeyWrapper) (settings : Settings) (c : Custody) : Prop where
  new : ∃ fresh, NewStore w settings fresh
  steady : c.Steady
  wrapper_eq : c.store.wrapper = w
  policy_eq : c.store.policy = KeyStore.custodyPolicy settings.custodianMaxRetries

/-- A service that takes requests has all it needs for them. -/
structure Running (s : Service) : Prop where
  up : s.outages = 0
  engines : s.engines = Scheme.all
  pool : s.pool.isSome
  keys : s.keys.isSome
  tries : 0 ≤ s.settings.initMaxRetries

/-- The invariant of the service with a custodian that answers every call. -/
structure Sound (w : KeyWrapper) (s : Service) : Prop where
  wraps : s.Wraps w
  exact : s.entropy.Exact
  answering : Custody.Answering s.custodian
  pool : ∀ pool, s.pool = some pool → WorkerPool.new s.settings.workerPoolSize = .ok pool
  store : ∀ store, s.keys = some store → StoreSound w s.settings (s.custody store)
  running : s.ready = true → s.Running

theorem Sound.startable {w : KeyWrapper} (sound : s.Sound w) (running : s.Running) : Startable w s.settings := by
  obtain ⟨pool, hp⟩ := Option.isSome_iff_exists.1 running.pool
  obtain ⟨store, hs⟩ := Option.isSome_iff_exists.1 running.keys
  exact ⟨⟨pool, sound.pool pool hp⟩, (sound.store store hs).new, running.tries⟩

/-- What does not change, and what only grows. -/
structure Grows (user : Text) (s s' : Service) : Prop where
  settings_eq : s'.settings = s.settings
  identity_eq : Entries.get? s'.users user = Entries.get? s.users user
  outages : s.outages = 0 → s'.outages = 0
  records : ∀ {o r}, Entries.get? s.custodian.records o = some r →
    Entries.get? s'.custodian.records o = some r

theorem Grows.refl (user : Text) (s : Service) : Grows user s s := ⟨rfl, rfl, id, id⟩

theorem Grows.trans {user : Text} (h : Grows user s s') (h' : Grows user s' s'') : Grows user s s'' where
  settings_eq := h'.settings_eq.trans h.settings_eq
  identity_eq := h'.identity_eq.trans h.identity_eq
  outages up := h'.outages (h.outages up)
  records found := h'.records (h.records found)

/-- A sound state is followed by a sound state that has grown. -/
def Advances (w : KeyWrapper) (user : Text) (s s' : Service) : Prop := s.Sound w → s'.Sound w ∧ Grows user s s'

variable {w : KeyWrapper} {user : Text}

instance : Std.Refl (Advances w user) := ⟨fun s sound => ⟨sound, .refl user s⟩⟩

theorem Keeps.advances {m : ServiceM α} {r : Except Failure α} (h : Keeps (Advances w user) m)
    (run : m.run s = (r, s')) (sound : s.Sound w) : s'.Sound w ∧ Grows user s s' := h.of_run run sound

instance : IsTrans Service (Advances w user) where
  trans _ _ _ first second sound := by
    obtain ⟨sound, grows⟩ := first sound
    obtain ⟨sound, grows'⟩ := second sound
    exact ⟨sound, grows.trans grows'⟩

structure Same (s s' : Service) : Prop where
  settings_eq : s'.settings = s.settings := by rfl
  wrapper_eq : s'.wrapper = s.wrapper := by rfl
  engines_eq : s'.engines = s.engines := by rfl
  pool_eq : s'.pool = s.pool := by rfl
  keys_eq : s'.keys = s.keys := by rfl
  ready_eq : s'.ready = s.ready := by rfl
  custodian_eq : s'.custodian = s.custodian := by rfl
  entropy_eq : s'.entropy = s.entropy := by rfl
  outages_eq : s'.outages = s.outages := by rfl

theorem Same.sound (same : Same s s') (sound : s.Sound w) : s'.Sound w := by
  obtain ⟨settings_eq, wrapper_eq, engines_eq, pool_eq, keys_eq, ready_eq, custodian_eq, entropy_eq,
    outages_eq⟩ := same
  -- Each part of the invariant is about fields that are the same.
  refine ⟨?_, ?_, ?_, ?_, ?_, ?_⟩
  · unfold Wraps
    rw [wrapper_eq, settings_eq]
    exact sound.wraps
  · rw [entropy_eq]
    exact sound.exact
  · rw [custodian_eq]
    exact sound.answering
  · rw [pool_eq, settings_eq]
    exact sound.pool
  · rw [keys_eq]
    intro store found
    have before := sound.store store found
    refine ⟨?_, ?_, before.wrapper_eq, ?_⟩
    · rw [settings_eq]
      exact before.new
    · unfold custody
      rw [custodian_eq, entropy_eq]
      exact before.steady.at s'.now s'.waits
    · rw [settings_eq]
      exact before.policy_eq
  · rw [ready_eq]
    intro ready
    have before := sound.running ready
    refine ⟨?_, ?_, ?_, ?_, ?_⟩
    · rw [outages_eq]
      exact before.up
    · rw [engines_eq]
      exact before.engines
    · rw [pool_eq]
      exact before.pool
    · rw [keys_eq]
      exact before.keys
    · rw [settings_eq]
      exact before.tries

theorem Same.advances (same : Same s s') (users_eq : Entries.get? s'.users user = Entries.get? s.users user) :
    Advances w user s s' := by
  refine fun sound => ⟨same.sound sound, same.settings_eq, users_eq, ?_, ?_⟩
  · rw [same.outages_eq]
    exact id
  · rw [same.custodian_eq]
    exact id

/-! ## 4. Single operations -/

section Generic

variable {R : Service → Service → Prop} [Std.Refl R] [IsTrans Service R]

omit [IsTrans Service R] in
theorem keeps_accept (check : Check α) (request : Value) : Keeps R (accept check request) := .pureResult _

theorem keeps_runPooled (work : Except Failure α) : Keeps R (runPooled work) := by
  refine Keeps.get.bind fun s => ?_
  cases s.pool with
  | some pool => exact .pureResult _
  | none => exact .throw _

theorem keeps_identityOf (user : Text) : Keeps R (identityOf user) := by
  refine Keeps.get.bind fun s => ?_
  split
  case h_1 => exact .pure _
  case h_2 => exact .throw _

theorem keeps_schemeOf (requested : Option Scheme) : Keeps R (schemeOf requested) := by
  cases requested with
  | some scheme => exact .pure scheme
  | none => exact Keeps.get.bind fun s => .pureResult _

end Generic

theorem run_accept {check : Check α} {request : Value} {a : α} (checked : check request = .ok a) (s : Service) :
    (accept check request).run s = (.ok a, s) := by
  unfold accept
  rw [run_pureResult, checked]
  rfl

theorem accept_eq_ok {α : Type} {check : Check α} {request : Value} {a : α}
    (h : (accept check request).run s = (.ok a, s')) : check request = .ok a ∧ s = s' := by
  obtain ⟨passed, same⟩ := Prod.mk.inj h
  exact ⟨Checked.toExcept_eq_ok_iff.1 passed, same⟩

/-- What follows the acceptance of a request that passes its check. -/
theorem bind_accept_eq_ok {check : Check α} {request : Value} {a : α} {f : α → ServiceM β} {b : β}
    (checked : check request = .ok a) (h : (accept check request >>= f).run s = (.ok b, s')) :
    (f a).run s = (.ok b, s') := by
  rw [run_bind_of_ok (run_accept checked s)] at h
  exact h

/-- The service has a pool that takes work. -/
def PoolOpen (s : Service) : Prop := ∃ pool, s.pool = some pool ∧ pool.closed = false

theorem run_runPooled {α : Type} (pooled : s.PoolOpen) (work : Except Failure α) :
    (runPooled work).run s = (work, s) := by
  obtain ⟨pool, found, opened⟩ := pooled
  unfold runPooled
  rw [run_bind_of_ok (run_get s), found]
  show (pureResult (pool.run (fun _ => work) ())).run s = _
  unfold WorkerPool.run
  rw [opened]
  rfl

theorem runPooled_eq_ok {α : Type} {work : Except Failure α} {a : α} (h : (runPooled work).run s = (.ok a, s')) :
    work = .ok a ∧ s.PoolOpen ∧ s = s' := by
  unfold runPooled at h
  rw [run_bind_of_ok (run_get s)] at h
  split at h
  case h_2 => cases h
  case h_1 pool found =>
    obtain ⟨done, same⟩ := Prod.mk.inj h
    unfold WorkerPool.run at done
    split at done
    case isTrue => cases done
    case isFalse opened => exact ⟨done, ⟨pool, found, eq_false_of_ne_true opened⟩, same⟩

theorem closed_of_new {workers : Int} {pool : WorkerPool} (h : WorkerPool.new workers = .ok pool) :
    pool.closed = false := by
  unfold WorkerPool.new at h
  split at h
  case isTrue => cases h
  case isFalse =>
    obtain rfl := Except.ok.inj h
    rfl

theorem run_identityOf {identity : Text}
    (known : (Entries.get? s.users user).filter (!·.isEmpty) = some identity) :
    (identityOf user).run s = (.ok identity, s) := by
  unfold identityOf
  rw [run_bind_of_ok (run_get s), known]
  rfl

theorem identityOf_eq_ok {identity : Text} (h : (identityOf user).run s = (.ok identity, s')) :
    s = s' ∧ (Entries.get? s.users user).filter (!·.isEmpty) = some identity := by
  unfold identityOf at h
  rw [run_bind_of_ok (run_get s)] at h
  split at h
  case h_1 found known =>
    obtain ⟨same, rfl⟩ := Prod.mk.inj h
    obtain rfl := Except.ok.inj same
    exact ⟨rfl, known⟩
  case h_2 => cases h

theorem schemeOf_eq_ok {requested : Option Scheme} {scheme : Scheme}
    (h : (schemeOf requested).run s = (.ok scheme, s')) : s = s' := by
  cases requested with
  | some _ => exact (Prod.mk.inj h).2
  | none =>
    obtain ⟨s₁, s₂, read, rest⟩ := run_bind_eq_ok h
    obtain ⟨-, rfl⟩ := Prod.mk.inj read
    exact (Prod.mk.inj rest).2

theorem engine_eq_ok {scheme : Scheme} {p : Parameters} (h : s.engine scheme = .ok p) : p = .registered scheme := by
  unfold engine at h
  split at h
  case isTrue => exact (Except.ok.inj h).symm
  case isFalse => cases h

theorem faithful_keySource (s : Service) : s.keySource.Faithful where
  scheme_eq {scheme p} h := by
    have h : s.engine scheme = .ok p := h
    unfold engine at h
    split at h
    case isTrue =>
      obtain rfl := Except.ok.inj h
      cases scheme <;> rfl
    case isFalse => cases h
  engine_failure {scheme f} h := by
    have h : s.engine scheme = .error f := h
    unfold engine at h
    split at h
    case isTrue => cases h
    case isFalse =>
      obtain rfl := Except.error.inj h
      rintro ⟨_, _, _, he⟩
      cases he
  broken_failure h := by cases h

def withCustody (s : Service) (c : Custody) : Service :=
  { s with keys := some c.store, custodian := c.custodian, entropy := c.entropy, waits := c.waits }

theorem run_withKeys {store : KeyStore} (found : s.keys = some store) (f : KeySource → Custody → α × Custody) :
    (withKeys f).run s = (.ok (f s.keySource (s.custody store)).1,
      s.withCustody (f s.keySource (s.custody store)).2) := by
  unfold withKeys
  rw [run_bind_of_ok (run_get s), found]
  rfl

/-- Without a key store nothing is done with it. -/
theorem run_withKeys_of_none (none : s.keys = none) (f : KeySource → Custody → α × Custody) :
    (withKeys f).run s = (.error (.closed "key-cache"), s) := by
  unfold withKeys
  rw [run_bind_of_ok (run_get s), none]
  rfl

theorem withKeys_eq_ok {f : KeySource → Custody → α × Custody} {a : α} (h : (withKeys f).run s = (.ok a, s')) :
    ∃ store, s.keys = some store ∧ a = (f s.keySource (s.custody store)).1 ∧
      s' = s.withCustody (f s.keySource (s.custody store)).2 := by
  cases found : s.keys with
  | none =>
    rw [run_withKeys_of_none found] at h
    cases h
  | some store =>
    rw [run_withKeys found] at h
    obtain ⟨told, left⟩ := Prod.mk.inj h
    exact ⟨store, rfl, (Except.ok.inj told).symm, left.symm⟩

/-- What work with the key store keeps where there is one, it keeps. -/
theorem keeps_withKeys_of {R : Service → Service → Prop} [Std.Refl R] {f : KeySource → Custody → α × Custody}
    (works : ∀ s store, s.keys = some store → R s (s.withCustody (f s.keySource (s.custody store)).2)) :
    Keeps R (withKeys f) := by
  intro s
  cases found : s.keys with
  | none =>
    rw [run_withKeys_of_none found]
    exact Std.Refl.refl s
  | some store =>
    rw [run_withKeys found]
    exact works s store found

/-- Work with the key store that leaves it in order leaves the service in order. -/
theorem advances_withCustody {store : KeyStore} (found : s.keys = some store) {c : Custody}
    (works : (s.custody store).Steady → c.Steady ∧ Custody.Grows (s.custody store) c) :
    Advances w user s (s.withCustody c) := by
  intro sound
  have before := sound.store store found
  obtain ⟨steady, grows⟩ := works before.steady
  -- Only the key store and what it works with have changed, and it is in order.
  refine ⟨⟨sound.wraps, steady.sound.exact, steady.answering, sound.pool, ?_, ?_⟩, rfl, rfl, id, ?_⟩
  · intro store' found'
    obtain rfl := Option.some.inj found'
    exact ⟨before.new, steady.at s.now c.waits, grows.wrapper_eq.trans before.wrapper_eq,
      grows.policy_eq.trans before.policy_eq⟩
  · intro ready
    have running := sound.running ready
    exact ⟨running.up, running.engines, running.pool, rfl, running.tries⟩
  · exact fun held => grows.records held

theorem keeps_withKeys {f : KeySource → Custody → α × Custody}
    (works : ∀ {source c}, KeySource.Faithful source → Custody.Steady c →
      (f source c).2.Steady ∧ Custody.Grows c (f source c).2) :
    Keeps (Advances w user) (withKeys f) :=
  keeps_withKeys_of fun s _ found => advances_withCustody found (works s.faithful_keySource)

/-! ## 5. Keys in custody -/

/-- An owner's record is in custody, and opens to the given keys. -/
def Held (w : KeyWrapper) (o : Owner) (keys : KeyPair) (s : Service) : Prop :=
  ∃ r, Entries.get? s.custodian.records o = some r ∧ Custody.openRecord w o r = .ok keys

variable {o : Owner} {keys : KeyPair}

theorem Held.mono (held : s.Held w o keys) (grows : Grows user s s') : s'.Held w o keys := by
  obtain ⟨r, found, opens⟩ := held
  exact ⟨r, grows.records found, opens⟩

theorem serves_custody (sound : s.Sound w) {store : KeyStore} (found : s.keys = some store)
    (held : s.Held w o keys) (tries : 0 ≤ s.settings.custodianMaxRetries) : (s.custody store).Serves o keys := by
  have before := sound.store store found
  obtain ⟨r, found, opens⟩ := held
  refine ⟨⟨r, found, ?_⟩, ?_⟩
  · rw [before.wrapper_eq]
    exact opens
  · rw [before.policy_eq]
    exact tries

theorem held_withCustody (sound : s.Sound w) {store : KeyStore} (found : s.keys = some store) {c : Custody}
    (grows : Custody.Grows (s.custody store) c) (serves : c.Serves o keys) :
    (s.withCustody c).Held w o keys ∧ 0 ≤ s.settings.custodianMaxRetries := by
  have before := sound.store store found
  obtain ⟨⟨r, found, opens⟩, tries⟩ := serves
  rw [grows.wrapper_eq] at opens
  rw [grows.policy_eq] at tries
  refine ⟨⟨r, found, ?_⟩, ?_⟩
  · rw [← before.wrapper_eq]
    exact opens
  · rw [before.policy_eq] at tries
    exact tries

/-- An owner's keys are in custody once a request has been given them. -/
theorem held_keysFor (sound : s.Sound w) {errand : Errand}
    (h : (keysFor errand o).run s = (.ok keys, s')) :
    s'.Held w o keys ∧ 0 ≤ s.settings.custodianMaxRetries := by
  obtain ⟨answer, s₁, asked, answered⟩ := run_bind_eq_ok h
  obtain ⟨rfl, rfl⟩ := Prod.mk.inj answered
  obtain ⟨store, found, told, rfl⟩ := withKeys_eq_ok asked
  have steady := (sound.store store found).steady
  have serves := Custody.serves_ask steady s.faithful_keySource told.symm
  exact held_withCustody sound found (Custody.grows_ask steady s.faithful_keySource errand o) serves

/-- Each owner's keys are in custody once requests made at the same time have been given them. -/
theorem held_askAll (sound : s.Sound w) {requests : List (Errand × Owner)} {answers : List (Except Failure KeyPair)}
    (h : (withKeys fun source c => c.askAll source requests).run s = (.ok answers, s')) {i : Nat}
    {errand : Errand} (asked : requests[i]? = some (errand, o)) (told : answers[i]? = some (.ok keys)) :
    s'.Held w o keys ∧ 0 ≤ s.settings.custodianMaxRetries := by
  obtain ⟨store, found, rfl, rfl⟩ := withKeys_eq_ok h
  have steady := (sound.store store found).steady
  have serves := Custody.serves_askAll steady.sound steady.idle s.faithful_keySource asked told
  have grows := Custody.grows_askAll steady.sound steady.idle s.faithful_keySource requests
  exact held_withCustody sound found grows serves

/-- A lookup of keys in custody finds them, and works with the key store only. -/
theorem exists_run_keysFor_lookup (sound : s.Sound w) {store : KeyStore} (found : s.keys = some store)
    (held : s.Held w o keys) (tries : 0 ≤ s.settings.custodianMaxRetries) :
    ∃ c, (keysFor .lookup o).run s = (.ok keys, s.withCustody c) := by
  have steady := (sound.store store found).steady
  -- The custodian answers, so that the lookup is told what is held.
  have told := (Custody.ask_lookup steady.quiet s.keySource o).1
  rw [Custody.answer_of_serves steady.sound (serves_custody sound found held tries)] at told
  unfold keysFor
  rw [run_bind_of_ok (run_withKeys found _), told]
  exact ⟨_, rfl⟩

end SealedFields.Service
