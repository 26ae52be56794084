import SealedFields.Proofs.Retry.Suspended
import SealedFields.Proofs.Service.Operations

/-!
# Starting and closing

A start keeps what the other operations keep, and a service that was started runs. Closing forgets the key
store and the pool, but nothing that is needed to start again.
-/

namespace SealedFields

namespace Service

variable {s s' : Service} {w : KeyWrapper} {user : Text}

/-! ## 1. Runs of the parts -/

theorem validate_registered (scheme : Scheme) : (Parameters.registered scheme).validate = .ok () := by
  cases scheme <;> rfl

theorem run_startEngines (s : Service) : startEngines.run s = (.ok (), { s with engines := Scheme.all }) := by
  unfold startEngines
  simp only [validate_registered]
  rfl

theorem run_startPool_of_some {pool : WorkerPool} (found : s.pool = some pool) :
    startPool.run s = (.ok (), s) := by
  unfold startPool
  rw [run_bind_of_ok (run_get s), found]
  rfl

theorem run_startPool_of_none (none : s.pool = none) : startPool.run s =
    match WorkerPool.new s.settings.workerPoolSize with
    | .ok pool => (.ok (), { s with pool := some pool })
    | .error e => (.error e, s) := by
  unfold startPool
  rw [run_bind_of_ok (run_get s), none]
  dsimp only [Option.isNone_none]
  rw [if_pos rfl, run_bind_of_ok (run_get s)]
  cases WorkerPool.new s.settings.workerPoolSize <;> rfl

theorem run_makeWrapper (wraps : s.Wraps w) : makeWrapper.run s = (.ok w, s) := by
  unfold makeWrapper
  rw [run_bind_of_ok (run_get s)]
  -- The wrapper was handed in, or is made from the master key that is set.
  rcases wraps with handedIn | ⟨none, master⟩
  · rw [handedIn]
    rfl
  · rw [none, master]
    have same : KeyWrapper.ofMasterKey w.masterKey = .ok w := dif_pos w.size
    show (pureResult (KeyWrapper.ofMasterKey w.masterKey)).run s = _
    rw [same]
    rfl

theorem run_startKeys_of_some {store : KeyStore} (found : s.keys = some store) :
    startKeys.run s = (.ok (), s) := by
  unfold startKeys
  rw [run_bind_of_ok (run_get s), found]
  rfl

theorem run_startKeys_of_none (wraps : s.Wraps w) (none : s.keys = none) : startKeys.run s =
    match KeyStore.new w s.settings.keyCacheTtlSeconds s.settings.bootstrapKeyCacheTtlSeconds
      s.settings.custodianMaxRetries with
    | .ok store => (.ok (), { s with keys := some store })
    | .error e => (.error e, s) := by
  unfold startKeys
  rw [run_bind_of_ok (run_get s), none]
  dsimp only [Option.isNone_none]
  rw [if_pos rfl, run_bind_of_ok (run_makeWrapper wraps), run_bind_of_ok (run_get s)]
  cases KeyStore.new w s.settings.keyCacheTtlSeconds s.settings.bootstrapKeyCacheTtlSeconds
    s.settings.custodianMaxRetries <;> rfl

theorem run_bringUp_of_outage {n : Nat} (out : s.outages = n + 1) :
    bringUp.run s = (.error (.field (.bringUpFailed "engine unavailable" none)), { s with outages := n }) := by
  unfold bringUp
  rw [run_bind_of_ok (run_get s), out]
  rfl

theorem run_bringUp_of_up (up : s.outages = 0) :
    bringUp.run s = (do startPool; startKeys : ServiceM Unit).run { s with engines := Scheme.all } := by
  unfold bringUp
  rw [run_bind_of_ok (run_get s)]
  split
  case h_1 n out =>
    rw [up] at out
    cases out
  case h_2 => rw [run_bind_of_ok (run_startEngines s)]

/-! ## 2. What the parts keep true -/

theorem keeps_startPool : Keeps (Advances w user) startPool := by
  intro s
  cases found : s.pool with
  | some pool =>
    rw [run_startPool_of_some found]
    exact Std.Refl.refl s
  | none =>
    rw [run_startPool_of_none found]
    split
    case h_2 => exact Std.Refl.refl s
    case h_1 pool new =>
      intro sound
      refine ⟨⟨sound.wraps, sound.exact, sound.answering, ?_, sound.store, ?_⟩, rfl, rfl, id, id⟩
      · intro pool' found'
        obtain rfl := Option.some.inj found'
        exact new
      · intro ready
        have running := sound.running ready
        exact ⟨running.up, running.engines, rfl, running.keys, running.tries⟩

theorem keeps_startKeys : Keeps (Advances w user) startKeys := by
  intro s sound
  cases found : s.keys with
  | some store =>
    rw [run_startKeys_of_some found]
    exact ⟨sound, .refl user s⟩
  | none =>
    rw [run_startKeys_of_none sound.wraps found]
    split
    case h_2 => exact ⟨sound, .refl user s⟩
    case h_1 store new =>
      refine ⟨⟨sound.wraps, sound.exact, sound.answering, sound.pool, ?_, ?_⟩, rfl, rfl, id, id⟩
      · intro store' found'
        obtain rfl := Option.some.inj found'
        -- A new key store has nothing under way and nothing cached.
        obtain ⟨wrapper_eq, policy_eq, -, -⟩ := Custody.new_eq_ok new
        have quiet : (s.custody store).Quiet := Custody.quiet_new sound.answering new
        exact ⟨⟨store, new⟩, ⟨Custody.sound_new sound.exact new, quiet.idle, sound.answering⟩, wrapper_eq,
          policy_eq⟩
      · intro ready
        have running := sound.running ready
        exact ⟨running.up, running.engines, running.pool, rfl, running.tries⟩

theorem keeps_bringUp : Keeps (Advances w user) bringUp := by
  intro s
  cases out : s.outages with
  | succ n =>
    rw [run_bringUp_of_outage out]
    intro sound
    -- A service that is out of order is not ready.
    have off : s.ready = true → False := by
      intro ready
      have up := (sound.running ready).up
      omega
    refine ⟨⟨sound.wraps, sound.exact, sound.answering, sound.pool, sound.store, fun ready => (off ready).elim⟩,
      rfl, rfl, ?_, id⟩
    intro up
    omega
  | zero =>
    rw [run_bringUp_of_up out]
    refine IsTrans.trans _ _ _ ?_ ((keeps_startPool.bind fun _ => keeps_startKeys) _)
    intro sound
    refine ⟨⟨sound.wraps, sound.exact, sound.answering, sound.pool, sound.store, ?_⟩, rfl, rfl, id, id⟩
    intro ready
    have running := sound.running ready
    exact ⟨running.up, rfl, running.pool, running.keys, running.tries⟩

/-! ## 3. A start -/

theorem startPool_eq_ok (h : startPool.run s = (.ok (), s')) : ∃ pool, s' = { s with pool := some pool } := by
  cases found : s.pool with
  | some pool =>
    rw [run_startPool_of_some found] at h
    obtain ⟨-, rfl⟩ := Prod.mk.inj h
    exact ⟨pool, by rw [← found]⟩
  | none =>
    rw [run_startPool_of_none found] at h
    split at h
    case h_2 => cases h
    case h_1 pool _ => exact ⟨pool, (Prod.mk.inj h).2.symm⟩

theorem startKeys_eq_ok (wraps : s.Wraps w) (h : startKeys.run s = (.ok (), s')) :
    ∃ store, s' = { s with keys := some store } := by
  cases found : s.keys with
  | some store =>
    rw [run_startKeys_of_some found] at h
    obtain ⟨-, rfl⟩ := Prod.mk.inj h
    exact ⟨store, by rw [← found]⟩
  | none =>
    rw [run_startKeys_of_none wraps found] at h
    split at h
    case h_2 => cases h
    case h_1 store _ => exact ⟨store, (Prod.mk.inj h).2.symm⟩

/-- Where an attempt to start succeeds, everything is up. -/
theorem bringUp_eq_ok (wraps : s.Wraps w) (h : bringUp.run s = (.ok (), s')) : s.outages = 0 ∧
    ∃ pool store, s' = { s with engines := Scheme.all, pool := some pool, keys := some store } := by
  -- During an outage the attempt fails.
  have up : s.outages = 0 := by
    by_contra out
    obtain ⟨n, out⟩ := Nat.exists_eq_succ_of_ne_zero out
    rw [run_bringUp_of_outage out] at h
    cases h
  rw [run_bringUp_of_up up] at h
  obtain ⟨⟨⟩, s₁, pooled, keyed⟩ := run_bind_eq_ok h
  obtain ⟨pool, rfl⟩ := startPool_eq_ok pooled
  have wraps : Wraps w { s with engines := Scheme.all, pool := some pool } := wraps
  obtain ⟨store, rfl⟩ := startKeys_eq_ok wraps keyed
  exact ⟨up, pool, store, rfl⟩

theorem exists_run_startPool (startable : Startable w s.settings) :
    ∃ pool, startPool.run s = (.ok (), { s with pool := some pool }) := by
  cases found : s.pool with
  | some pool =>
    rw [run_startPool_of_some found]
    exact ⟨pool, by rw [← found]⟩
  | none =>
    obtain ⟨pool, new⟩ := startable.pool
    rw [run_startPool_of_none found, new]
    exact ⟨pool, rfl⟩

theorem exists_run_startKeys (wraps : s.Wraps w) (startable : Startable w s.settings) :
    ∃ store, startKeys.run s = (.ok (), { s with keys := some store }) := by
  cases found : s.keys with
  | some store =>
    rw [run_startKeys_of_some found]
    exact ⟨store, by rw [← found]⟩
  | none =>
    obtain ⟨store, new⟩ := startable.store
    unfold NewStore at new
    rw [run_startKeys_of_none wraps found, new]
    exact ⟨store, rfl⟩

theorem exists_run_bringUp (up : s.outages = 0) (wraps : s.Wraps w) (startable : Startable w s.settings) :
    ∃ s', bringUp.run s = (.ok (), s') := by
  have startable : Startable w { s with engines := Scheme.all }.settings := startable
  obtain ⟨pool, pooled⟩ := exists_run_startPool startable
  have wraps : Wraps w { s with engines := Scheme.all, pool := some pool } := wraps
  obtain ⟨store, keyed⟩ := exists_run_startKeys wraps startable
  rw [run_bringUp_of_up up, run_bind_of_ok pooled]
  exact ⟨_, keyed⟩

/-- The work of a start, one attempt at a time. -/
def startWork : Retry.Work (StateM Service) Unit Unit := ⟨"start", fun _ => bringUp.run⟩

def startWait (delay : Float) : StateM Service (Except Failure Unit) := do
  modify fun s => { s with waits := s.waits ++ [delay] }
  return .ok ()

theorem run_start_of_ready (ready : s.ready = true) : start.run s = (.ok (), s) := by
  unfold start
  rw [run_bind_of_ok (run_get s), ready]
  rfl

theorem run_start_of_not_ready (idle : s.ready = false) : start.run s =
    match (startPolicy s.settings).executeSuspended startWait startWork () s with
    | (.ok _, s') => (.ok (), { s' with ready := true })
    | (.error e, s') => (.error e, s') := by
  unfold start
  rw [run_bind_of_ok (run_get s), idle]
  show ((ExceptT.mk ((startPolicy s.settings).executeSuspended startWait startWork ()) >>= fun _ =>
    modify fun s => { s with ready := true } : ServiceM PUnit).run s) = _
  have same : (ExceptT.mk ((startPolicy s.settings).executeSuspended startWait startWork ()) : ServiceM Unit).run s
      = (startPolicy s.settings).executeSuspended startWait startWork () s := rfl
  rw [run_bind, same]
  rcases (startPolicy s.settings).executeSuspended startWait startWork () s with ⟨r, s'⟩
  cases r <;> rfl

theorem advances_startWait (delay : Float) (s : Service) : Advances w user s (startWait delay s).2 :=
  Same.advances {} rfl

theorem advances_attempts (s : Service) :
    Advances w user s ((startPolicy s.settings).executeSuspended startWait startWork () s).2 := by
  have body : ∀ s, Advances w user s (startWork.body () s).2 := keeps_bringUp
  exact Retry.keeps_resume body advances_startWait _ 0 s

theorem advances_ready (running : s.Running) : Advances w user s { s with ready := true } := fun sound =>
  ⟨⟨sound.wraps, sound.exact, sound.answering, sound.pool, sound.store, fun _ =>
    ⟨running.up, running.engines, running.pool, running.keys, running.tries⟩⟩, rfl, rfl, id, id⟩

/-- A start that succeeds ends with an attempt that brought everything up. -/
theorem start_eq_ok (sound : s.Sound w) (user : Text) (idle : s.ready = false)
    (h : start.run s = (.ok (), s')) :
    ∃ s₁, Advances w user s s₁ ∧ s₁.Running ∧ s' = { s₁ with ready := true } := by
  rw [run_start_of_not_ready idle] at h
  rcases hr : (startPolicy s.settings).executeSuspended startWait startWork () s with ⟨r, s₁⟩
  rw [hr] at h
  cases r with
  | error e => cases h
  | ok =>
    obtain ⟨-, rfl⟩ := Prod.mk.inj h
    -- The attempts and waits together keep the invariant.
    have all : Advances w user s ((startPolicy s.settings).executeSuspended startWait startWork () s).2 :=
      advances_attempts s
    rw [hr] at all
    have body : ∀ s, Advances w user s (startWork.body () s).2 := keeps_bringUp
    obtain ⟨tries, s₀, before, last⟩ := Retry.exists_of_resume_eq_ok body advances_startWait hr
    obtain ⟨sound, grows⟩ := before sound
    obtain ⟨up, pool, store, rfl⟩ := bringUp_eq_ok sound.wraps last
    refine ⟨_, all, ⟨up, rfl, rfl, rfl, ?_⟩, rfl⟩
    show 0 ≤ s₀.settings.initMaxRetries
    rw [grows.settings_eq]
    exact tries

theorem keeps_start : Keeps (Advances w user) start := by
  intro s sound
  cases ready : s.ready with
  | true =>
    rw [run_start_of_ready ready]
    exact ⟨sound, .refl user s⟩
  | false =>
    -- Whether the start succeeds or not, the attempts keep the invariant; only then is the service ready.
    rcases h : start.run s with ⟨r, s'⟩
    cases r with
    | ok =>
      obtain ⟨s₁, attempts, running, rfl⟩ := start_eq_ok sound user ready h
      exact IsTrans.trans _ _ _ attempts (advances_ready running) sound
    | error e =>
      have attempts : Advances w user s ((startPolicy s.settings).executeSuspended startWait startWork () s).2 :=
        advances_attempts s
      rw [run_start_of_not_ready ready] at h
      split at h
      case h_1 => cases h
      case h_2 last =>
        obtain ⟨-, rfl⟩ := Prod.mk.inj h
        rw [last] at attempts
        exact attempts sound

theorem running_start (sound : s.Sound w) (h : start.run s = (.ok (), s')) : s'.Running := by
  cases ready : s.ready with
  | true =>
    rw [run_start_of_ready ready] at h
    obtain ⟨-, rfl⟩ := Prod.mk.inj h
    exact sound.running ready
  | false =>
    obtain ⟨s₁, -, running, rfl⟩ := start_eq_ok sound [] ready h
    exact ⟨running.up, running.engines, running.pool, running.keys, running.tries⟩

/-- A service starts if nothing is out of order. -/
theorem exists_run_start (up : s.outages = 0) (wraps : s.Wraps w) (startable : Startable w s.settings) :
    ∃ s', start.run s = (.ok (), s') := by
  cases ready : s.ready with
  | true => exact ⟨s, run_start_of_ready ready⟩
  | false =>
    -- The first attempt succeeds, and the policy allows it.
    obtain ⟨s₁, first⟩ := exists_run_bringUp up wraps startable
    have tries : ((0 : Nat) : Int) ≤ (startPolicy s.settings).maxRetries := startable.tries
    have attempts : (startPolicy s.settings).executeSuspended startWait startWork () s = (.ok (), s₁) :=
      Retry.resume_of_ok tries first
    rw [run_start_of_not_ready ready, attempts]
    exact ⟨_, rfl⟩

/-- Closing forgets the key store and the pool, and what is needed to start again stays. -/
theorem advances_close (s : Service) : Advances w user s s.close := by
  intro sound
  refine ⟨⟨sound.wraps, sound.exact, sound.answering, ?_, ?_, ?_⟩, rfl, rfl, id, id⟩
  · intro pool found
    cases found
  · intro store found
    cases found
  · intro ready
    cases ready

/-! ## 4. What a start may change -/

/-- Making a wrapper counts the keys that are made up, and does nothing else. -/
theorem makeWrapper_same (s : Service) : ∃ ephemeralKeys, (makeWrapper.run s).2 = { s with ephemeralKeys } := by
  unfold makeWrapper
  rw [run_bind_of_ok (run_get s)]
  split
  case h_1 => exact ⟨s.ephemeralKeys, rfl⟩
  case h_2 =>
    rw [run_bind, run_pureResult]
    cases s.settings.masterKey with
    | error e => exact ⟨s.ephemeralKeys, rfl⟩
    | ok key =>
      cases key with
      | some key => exact ⟨s.ephemeralKeys, rfl⟩
      | none => exact ⟨s.ephemeralKeys + 1, rfl⟩

/-- The key store that a start leaves is the one that was there or a new one; there is one if it succeeds. -/
theorem startKeys_same (s : Service) : ∃ ephemeralKeys keys, (startKeys.run s).2 = { s with ephemeralKeys, keys } ∧
    (keys = s.keys ∨ ∃ wrapper store, keys = some store ∧ NewStore wrapper s.settings store) ∧
    ((startKeys.run s).1 = .ok () → keys.isSome) := by
  cases found : s.keys with
  | some store =>
    rw [run_startKeys_of_some found]
    exact ⟨s.ephemeralKeys, some store, by rw [← found], .inl rfl, fun _ => rfl⟩
  | none =>
    obtain ⟨ephemeralKeys, same⟩ := makeWrapper_same s
    unfold startKeys
    rw [run_bind_of_ok (run_get s), found]
    dsimp only [Option.isNone_none]
    rw [if_pos rfl, run_bind]
    rcases made : makeWrapper.run s with ⟨wrapper, s₁⟩
    rw [made] at same
    obtain rfl : s₁ = { s with ephemeralKeys } := same
    cases wrapper with
    | error e => exact ⟨ephemeralKeys, none, by rw [← found], .inl rfl, fun h => by cases h⟩
    | ok wrapper =>
      dsimp only
      rw [run_bind_of_ok (run_get _), run_bind, run_pureResult]
      cases new : KeyStore.new wrapper s.settings.keyCacheTtlSeconds s.settings.bootstrapKeyCacheTtlSeconds
        s.settings.custodianMaxRetries with
      | error e => exact ⟨ephemeralKeys, none, by rw [← found], .inl rfl, fun h => by cases h⟩
      | ok store => exact ⟨ephemeralKeys, some store, rfl, .inr ⟨wrapper, store, rfl, new⟩, fun _ => rfl⟩

theorem keys_of_bringUp (h : bringUp.run s = (.ok (), s')) : s'.keys.isSome := by
  cases out : s.outages with
  | succ n =>
    rw [run_bringUp_of_outage out] at h
    cases h
  | zero =>
    rw [run_bringUp_of_up out] at h
    obtain ⟨⟨⟩, s₁, -, keyed⟩ := run_bind_eq_ok h
    obtain ⟨ephemeralKeys, keys, same, -, there⟩ := startKeys_same s₁
    rw [keyed] at same there
    obtain rfl : s' = { s₁ with ephemeralKeys, keys } := same
    exact there rfl

theorem ready_of_start (h : start.run s = (.ok (), s')) : s'.ready = true := by
  cases ready : s.ready with
  | true =>
    rw [run_start_of_ready ready] at h
    obtain ⟨-, rfl⟩ := Prod.mk.inj h
    exact ready
  | false =>
    rw [run_start_of_not_ready ready] at h
    split at h
    case h_2 => cases h
    case h_1 =>
      obtain ⟨-, rfl⟩ := Prod.mk.inj h
      rfl

section Keeps

variable {R : Service → Service → Prop} [Std.Refl R] [IsTrans Service R]
  (brings : ∀ s engines pool waits outages ephemeralKeys,
    R s { s with engines, pool, waits, outages, ephemeralKeys })
  (keyed : ∀ s wrapper store, NewStore wrapper s.settings store → R s { s with keys := some store })

include brings

omit [IsTrans Service R] in
theorem keeps_startPool_of : Keeps R startPool := by
  intro s
  cases found : s.pool with
  | some pool =>
    rw [run_startPool_of_some found]
    exact Std.Refl.refl s
  | none =>
    rw [run_startPool_of_none found]
    split
    case h_1 pool _ => exact brings s s.engines (some pool) s.waits s.outages s.ephemeralKeys
    case h_2 => exact Std.Refl.refl s

include keyed

theorem keeps_bringUp_of : Keeps R bringUp := by
  intro s
  cases out : s.outages with
  | succ n =>
    rw [run_bringUp_of_outage out]
    exact brings s s.engines s.pool s.waits n s.ephemeralKeys
  | zero =>
    have keys : Keeps R startKeys := by
      intro s
      obtain ⟨ephemeralKeys, keys, same, rfl | ⟨wrapper, store, rfl, new⟩, -⟩ := startKeys_same s
      · rw [same]
        exact brings s s.engines s.pool s.waits s.outages ephemeralKeys
      · rw [same]
        exact IsTrans.trans _ _ _ (brings s s.engines s.pool s.waits s.outages ephemeralKeys)
          (keyed { s with ephemeralKeys } wrapper store new)
    rw [run_bringUp_of_up out]
    exact IsTrans.trans _ _ _ (brings s Scheme.all s.pool s.waits s.outages s.ephemeralKeys)
      (((keeps_startPool_of brings).bind fun _ => keys) _)

/-- A start keeps what bringing up parts, making a key store and being ready with one keep. -/
theorem keeps_start_of (ready : ∀ s, s.keys.isSome → R s { s with ready := true }) : Keeps R start := by
  intro s
  cases up : s.ready with
  | true =>
    rw [run_start_of_ready up]
    exact Std.Refl.refl s
  | false =>
    have body : ∀ s, R s (startWork.body () s).2 := keeps_bringUp_of brings keyed
    have waits : ∀ delay s, R s (startWait delay s).2 := fun delay s =>
      brings s s.engines s.pool (s.waits ++ [delay]) s.outages s.ephemeralKeys
    have attempts : R s ((startPolicy s.settings).executeSuspended startWait startWork () s).2 :=
      Retry.keeps_resume body waits _ 0 s
    rcases last : (startPolicy s.settings).executeSuspended startWait startWork () s with ⟨r, s₁⟩
    rw [run_start_of_not_ready up]
    rw [last] at attempts ⊢
    cases r with
    | error e => exact attempts
    | ok =>
      obtain ⟨-, s₀, -, brought⟩ := Retry.exists_of_resume_eq_ok body waits last
      exact IsTrans.trans _ _ _ attempts (ready s₁ (keys_of_bringUp brought))

end Keeps

end Service

end SealedFields
