import SealedFields.Proofs.Key.Runs

/-!
# A custodian that answers every call

Every load ends when its custodian answers, and an owner's keys are found once they are in custody.
Between two requests no load is under way.
-/

namespace SealedFields.Custody

/-! ## 1. Loads end -/

/-- A custodian that no call finds out of order. -/
structure Answering (custodian : Custodian) : Prop where
  stores : ∀ n, custodian.storeOutage n = none
  retrievals : ∀ n, custodian.retrievalOutage n = none

variable {c : Custody} {source : KeySource} {l : KeyLoad} {o : Owner} {keys : KeyPair}

theorem answering_empty : Answering Custodian.empty := ⟨fun _ => rfl, fun _ => rfl⟩

theorem Answering.consult (answering : Answering c.custodian) (o : Owner) (phase : Phase) :
    Answering (consult o phase c).2.custodian := by
  have same := (withLabel_same phase c).1
  unfold Custody.consult
  cases phase with
  | lookingUp n =>
    show Answering (Custodian.retrieve o _).2
    rw [same]
    unfold Custodian.retrieve
    split <;> exact ⟨answering.stores, answering.retrievals⟩
  | storing n keys r =>
    show Answering (Custodian.store r _).2
    rw [same]
    unfold Custodian.store
    rw [answering.stores]
    exact ⟨answering.stores, answering.retrievals⟩

theorem answer_lookingUp (answering : Answering c.custodian) (o : Owner) (n : Nat) :
    (consult o (.lookingUp n) c).1 = .found (.ok (c.record? o)) := by
  have same := (withLabel_same (.lookingUp n) c).1
  show CustodianAnswer.found (Custodian.retrieve o _).1 = _
  rw [same]
  unfold Custodian.retrieve
  rw [answering.retrievals]
  rfl

theorem answer_storing (answering : Answering c.custodian) (o : Owner) (n : Nat) (keys : KeyPair)
    (r : KeyRecord) : (consult o (.storing n keys r) c).1 = .stored (.ok ()) := by
  have same := (withLabel_same (.storing n keys r) c).1
  show CustodianAnswer.stored (Custodian.store r _).1 = _
  rw [same]
  unfold Custodian.store
  rw [answering.stores]

/-- What a custodian that answers leaves a load to do: at most, keys that were just made are stored. -/
inductive Ends (phase : Phase) : Next → Prop
  | finish (result : Except Failure KeyPair) : Ends phase (.finish result)
  | go (n : Nat) (looks : phase = .lookingUp n) (keys : KeyPair) (r : KeyRecord) :
      Ends phase (.go (.storing 0 keys r))

theorem ends_step (source : KeySource) (answering : Answering c.custodian) (o : Owner) (errand : Errand) (phase : Phase) :
    Ends phase (step source o errand phase c).1 := by
  unfold step
  split
  case isFalse => exact .finish _
  case isTrue =>
    -- The custodian answers, so that no call is made twice.
    cases phase with
    | storing n keys r =>
      have answer := answer_storing answering o n keys r
      dsimp only
      rw [answer]
      exact .finish _
    | lookingUp n =>
      have answer := answer_lookingUp answering o n
      dsimp only
      rw [answer]
      cases c.record? o with
      | some r => exact .finish _
      | none =>
        cases errand with
        | lookup => exact .finish _
        | create =>
          show Ends _ (makeKeys source o _).1
          unfold makeKeys
          split
          case h_1 => exact .finish _
          case h_2 keys entropy _ =>
            split
            case h_1 => exact .finish _
            case h_2 r _ _ => exact .go n rfl keys r

theorem finish_storing (source : KeySource) (answering : Answering c.custodian) (o : Owner) (errand : Errand)
    (n : Nat) (keys : KeyPair) (r : KeyRecord) :
    ∃ result, (step source o errand (.storing n keys r) c).1 = .finish result := by
  have ends := ends_step source answering o errand (.storing n keys r)
  generalize (step source o errand (.storing n keys r) c).1 = next at ends ⊢
  cases ends with
  | finish result => exact ⟨result, rfl⟩
  | go n looks => cases looks

/-- A step of a load leaves the loads and the cache to `settle`. -/
theorem loads_step (source : KeySource) (o : Owner) (errand : Errand) (phase : Phase) (c : Custody) :
    (step source o errand phase c).2.store.loads = c.store.loads ∧
      (step source o errand phase c).2.store.keyCache = c.store.keyCache := by
  unfold step
  split
  case isTrue =>
    obtain ⟨entropy, same, -⟩ := resume_eq source o errand phase (consult o phase c).1 (consult o phase c).2
    have spec := consulted o phase c
    dsimp only
    rw [same]
    exact ⟨spec.loads_eq, spec.cache_eq⟩
  case isFalse =>
    obtain ⟨-, -, -, -, cache_eq, loads_eq⟩ := withLabel_same phase c
    exact ⟨loads_eq, cache_eq⟩

theorem Answering.step (answering : Answering c.custodian) (source : KeySource) (o : Owner) (errand : Errand)
    (phase : Phase) : Answering (Custody.step source o errand phase c).2.custodian := by
  unfold Custody.step
  split
  case isTrue =>
    obtain ⟨entropy, same, -⟩ := resume_eq source o errand phase (Custody.consult o phase c).1
      (Custody.consult o phase c).2
    dsimp only
    rw [same]
    exact answering.consult o phase
  case isFalse =>
    rw [(withLabel_same phase c).1]
    exact answering

theorem Answering.advance (answering : Answering c.custodian) (source : KeySource) (l : KeyLoad) :
    Answering (advance source l c).2.custodian := by
  show Answering (settle l _ (Custody.step source l.owner l.errand l.phase c).2).2.custodian
  rw [custodian_settle]
  exact answering.step source l.owner l.errand l.phase

theorem Answering.finish (answering : Answering c.custodian) (source : KeySource) (id steps : Nat) :
    Answering (finish source id steps c).2.custodian := by
  induction steps generalizing c with
  | zero => exact answering
  | succ steps ih =>
    rw [Custody.finish]
    split
    case h_1 => exact answering
    case h_2 l _ => exact ih (answering.advance source l)

theorem finish_of_gone {id : Nat} (gone : ∀ m ∈ c.store.loads, m.id ≠ id) (source : KeySource) (steps : Nat) :
    finish source id steps c = ([], c) := by
  have none : c.store.loads.find? (·.id = id) = none :=
    List.find?_eq_none.2 fun m hm => by simpa using gone m hm
  cases steps with
  | zero => rfl
  | succ steps => simp only [finish, none]

theorem loads_advance_of_go {phase : Phase} (h : (step source l.owner l.errand l.phase c).1 = .go phase) :
    ∀ m ∈ (advance source l c).2.store.loads,
      (m.id = l.id ∧ m.phase = phase) ∨ (m.id ≠ l.id ∧ m ∈ c.store.loads) := by
  intro m hm
  have same := (loads_step source l.owner l.errand l.phase c).1
  unfold advance at hm
  dsimp only at hm
  rw [h] at hm
  obtain ⟨k, hk, rfl⟩ := List.mem_map.1 hm
  rw [same] at hk
  split
  case isTrue he => exact .inl ⟨he, rfl⟩
  case isFalse hne => exact .inr ⟨hne, hk⟩

/-- A load that ends with its next step is gone after it. -/
theorem mem_advance_of_finish {result : Except Failure KeyPair}
    (h : (step source l.owner l.errand l.phase c).1 = .finish result) :
    ∀ m ∈ (advance source l c).2.store.loads, m ∈ c.store.loads ∧ m.id ≠ l.id := by
  intro m hm
  have same := (loads_step source l.owner l.errand l.phase c).1
  unfold advance at hm
  dsimp only at hm
  rw [h] at hm
  obtain ⟨hm, hne⟩ := List.mem_filter.1 hm
  rw [same] at hm
  exact ⟨hm, by simpa using hne⟩

/-- After its last step a load is gone, and the others are as they were. -/
theorem mem_finish_of_last {id : Nat}
    (last : ∀ l ∈ c.store.loads, l.id = id →
      ∃ result, (step source l.owner l.errand l.phase c).1 = .finish result) (steps : Nat) :
    ∀ m ∈ (finish source id (steps + 1) c).2.store.loads, m ∈ c.store.loads ∧ m.id ≠ id := by
  rw [finish]
  split
  case h_1 found =>
    intro m hm
    exact ⟨hm, by simpa using List.find?_eq_none.1 found m hm⟩
  case h_2 l found =>
    obtain rfl : l.id = id := by simpa using List.find?_some found
    obtain ⟨result, ends⟩ := last l (List.mem_of_find?_eq_some found) rfl
    have left := mem_advance_of_finish ends
    dsimp only
    rw [finish_of_gone fun m hm => (left m hm).2]
    exact left

/-- Two steps end a load: its keys are looked up, and new keys are stored. -/
theorem mem_finish (answering : Answering c.custodian) (source : KeySource) (id steps : Nat) :
    ∀ m ∈ (finish source id (steps + 2) c).2.store.loads, m ∈ c.store.loads ∧ m.id ≠ id := by
  cases found : c.store.loads.find? (·.id = id) with
  | none =>
    refine mem_finish_of_last (fun l hl same => ?_) (steps + 1)
    exact absurd same (by simpa using List.find?_eq_none.1 found l hl)
  | some l =>
    obtain rfl : l.id = id := by simpa using List.find?_some found
    have ends := ends_step source answering l.owner l.errand l.phase
    rw [finish, found]
    dsimp only
    cases hn : (step source l.owner l.errand l.phase c).1 with
    | wait delay phase =>
      -- With an answer there is nothing to wait for.
      rw [hn] at ends
      cases ends
    | finish result =>
      have left := mem_advance_of_finish hn
      rw [finish_of_gone fun m hm => (left m hm).2]
      exact left
    | go phase =>
      rw [hn] at ends
      obtain ⟨keys, r, rfl⟩ : ∃ keys r, phase = .storing 0 keys r := by
        cases ends with
        | go n looks keys r => exact ⟨keys, r, rfl⟩
      have left := loads_advance_of_go hn
      have answering := answering.advance source l
      intro m hm
      -- Keys that were just made are stored at once.
      obtain ⟨hm, hne⟩ := mem_finish_of_last (fun l' hl' same => by
        have phase_eq : l'.phase = .storing 0 keys r := by
          rcases left l' hl' with ⟨-, hp⟩ | ⟨hne, -⟩
          · exact hp
          · exact absurd same hne
        rw [phase_eq]
        exact finish_storing source answering l'.owner l'.errand 0 keys r) steps m hm
      rcases left m hm with ⟨he, -⟩ | ⟨-, hm⟩
      · exact absurd he hne
      · exact ⟨hm, hne⟩

theorem mem_finishAll (answering : Answering c.custodian) (source : KeySource) (ids : List Nat) :
    ∀ m ∈ (finishAll source ids c).2.store.loads, m ∈ c.store.loads ∧ m.id ∉ ids := by
  induction ids generalizing c with
  | nil => exact fun m hm => ⟨hm, List.not_mem_nil⟩
  | cons id ids ih =>
    intro m hm
    obtain ⟨hm, away⟩ := ih (answering.finish source id c.maxSteps) m hm
    obtain ⟨hm, hne⟩ := mem_finish answering source id (2 * (c.store.policy.maxRetries + 1).toNat) m hm
    rw [List.mem_cons, not_or]
    exact ⟨hm, hne, away⟩

/-- Whatever load is under way after some calls was under way before, or one of them started it. -/
theorem mem_requestAll (requests : List (Errand × Owner)) (caller : Nat) (c : Custody) :
    ∀ m ∈ (requestAll caller requests c).2.store.loads,
      m ∈ c.store.loads ∨ m.id ∈ (requestAll caller requests c).1.filterMap (·.started?) := by
  -- Induction on the calls, each of which starts one load at most.
  induction requests generalizing caller c with
  | nil => exact fun m hm => .inl hm
  | cons r requests ih =>
    intro m hm
    have split : (requestAll caller (r :: requests) c).1
        = (request r.1 r.2 caller c).1 :: (requestAll (caller + 1) requests (request r.1 r.2 caller c).2).1 := rfl
    rw [split]
    rcases ih (caller + 1) (request r.1 r.2 caller c).2 m hm with hm | hm
    · obtain ⟨more, loads, new⟩ := loads_request r.1 r.2 caller c
      rw [loads] at hm
      rcases List.mem_append.1 hm with hm | hm
      · exact .inl hm
      · refine .inr (List.mem_filterMap.2 ⟨_, List.mem_cons_self, ?_⟩)
        obtain ⟨-, -, started, -⟩ := new m hm
        rw [started]
        rfl
    · obtain ⟨reply, hr, started⟩ := List.mem_filterMap.1 hm
      exact .inr (List.mem_filterMap.2 ⟨reply, List.mem_cons_of_mem _ hr, started⟩)

theorem answering_requestAll (answering : Answering c.custodian) (requests : List (Errand × Owner))
    (caller : Nat) : Answering (requestAll caller requests c).2.custodian := by
  induction requests generalizing caller c with
  | nil => exact answering
  | cons r requests ih => exact ih (c := (request r.1 r.2 caller c).2) answering (caller + 1)

theorem Answering.finishAll (answering : Answering c.custodian) (source : KeySource) (ids : List Nat) :
    Answering (finishAll source ids c).2.custodian := by
  induction ids generalizing c with
  | nil => exact answering
  | cons id ids ih => exact ih (answering.finish source id c.maxSteps)

/-! ## 2. Between two calls -/

theorem Orderly.advance (orderly : c.Orderly) (source : KeySource) (l : KeyLoad) :
    (advance source l c).2.Orderly := by
  obtain ⟨loads_eq, cache_eq⟩ := loads_step source l.owner l.errand l.phase c
  have stepped : (Custody.step source l.owner l.errand l.phase c).2.Orderly := orderly.of_same cache_eq loads_eq
  exact stepped.settle l _

theorem Orderly.finish (orderly : c.Orderly) (source : KeySource) (id steps : Nat) :
    (finish source id steps c).2.Orderly := by
  induction steps generalizing c with
  | zero => exact orderly
  | succ steps ih =>
    rw [Custody.finish]
    split
    case h_1 => exact orderly
    case h_2 l _ => exact ih (orderly.advance source l)

theorem Orderly.finishAll (orderly : c.Orderly) (source : KeySource) (ids : List Nat) :
    (finishAll source ids c).2.Orderly := by
  induction ids generalizing c with
  | nil => exact orderly
  | cons id ids ih => exact ih (orderly.finish source id c.maxSteps)

theorem Orderly.requestAll (orderly : c.Orderly) (requests : List (Errand × Owner)) (caller : Nat) :
    (requestAll caller requests c).2.Orderly := by
  induction requests generalizing caller c with
  | nil => exact orderly
  | cons r requests ih => exact ih (orderly.request r.1 r.2 caller) (caller + 1)

/-- A key store between two calls: nothing is under way, and the custodian answers. -/
structure Quiet (c : Custody) : Prop where
  orderly : c.Orderly
  idle : c.Idle
  answering : Answering c.custodian

/-- Time that passes, waits and random bytes change nothing about that. -/
theorem Quiet.of_same (quiet : c.Quiet) {c' : Custody} (store_eq : c'.store = c.store)
    (custodian_eq : c'.custodian = c.custodian) : c'.Quiet := by
  obtain ⟨orderly, idle, answering⟩ := quiet
  refine ⟨orderly.of_same (by rw [store_eq]) (by rw [store_eq]), ⟨?_, ?_⟩, ?_⟩
  · rw [store_eq]
    exact idle.loads
  · rw [store_eq]
    exact idle.cached
  · rw [custodian_eq]
    exact answering

/-- Every load has ended once all calls have their answers. -/
theorem Quiet.askAll (quiet : c.Quiet) (source : KeySource) (requests : List (Errand × Owner)) :
    (askAll source requests c).2.Quiet := by
  have orderly := quiet.orderly.requestAll requests 0
  have answering := answering_requestAll quiet.answering requests 0
  refine ⟨orderly.finishAll source _, (orderly.finishAll source _).idle ?_, answering.finishAll source _⟩
  refine List.eq_nil_iff_forall_not_mem.2 fun m hm => ?_
  obtain ⟨hm, away⟩ := mem_finishAll answering source _ m hm
  rcases mem_requestAll requests 0 c m hm with hm | started
  · rw [quiet.idle.loads] at hm
    exact absurd hm List.not_mem_nil
  · exact away started

/-- Every call is given an answer. -/
theorem length_askAll (source : KeySource) (requests : List (Errand × Owner)) (c : Custody) :
    (askAll source requests c).1.length = requests.length := by
  have replied : ∀ (requests : List (Errand × Owner)) (caller : Nat) (c : Custody),
      (requestAll caller requests c).1.length = requests.length := by
    intro requests
    induction requests with
    | nil => exact fun _ _ => rfl
    | cons r requests ih => exact fun caller c => congrArg Nat.succ (ih (caller + 1) _)
  have answers : (askAll source requests c).1.length = ((requestAll 0 requests c).1.zipIdx.map _).length := rfl
  rw [answers, List.length_map, List.length_zipIdx, replied]

theorem askAll_singleton (source : KeySource) (errand : Errand) (o : Owner) (c : Custody) :
    askAll source [(errand, o)] c = ([(ask source errand o c).1], (ask source errand o c).2) := by
  have replies : (requestAll 0 [(errand, o)] c) = ([(request errand o 0 c).1], (request errand o 0 c).2) := rfl
  have started : [(request errand o 0 c).1].filterMap (·.started?)
      = (request errand o 0 c).1.started?.toList := by
    cases reply : (request errand o 0 c).1.started? with
    | none => rw [List.filterMap_cons_none reply]; rfl
    | some id => rw [List.filterMap_cons_some reply]; rfl
  simp only [askAll, replies, started]
  rfl

theorem Quiet.ask (quiet : c.Quiet) (source : KeySource) (errand : Errand) (o : Owner) :
    (ask source errand o c).2.Quiet := by
  have after := quiet.askAll source [(errand, o)]
  rw [askAll_singleton] at after
  exact after

/-! ## 3. Between two calls of a sound key store -/

/-- A sound key store between two calls. -/
structure Steady (c : Custody) : Prop where
  sound : c.Sound
  idle : c.Idle
  answering : Answering c.custodian

theorem Steady.quiet (steady : c.Steady) : c.Quiet := ⟨steady.sound.orderly, steady.idle, steady.answering⟩

theorem Steady.at (steady : c.Steady) (now : Float) (waits : List Float) :
    Steady { c with now, waits } where
  sound := steady.sound.of_grows (.of_eq rfl rfl rfl) rfl rfl rfl steady.sound.phases
  idle := ⟨steady.idle.loads, steady.idle.cached⟩
  answering := steady.answering

theorem Steady.askAll (steady : c.Steady) (faithful : source.Faithful) (requests : List (Errand × Owner)) :
    (askAll source requests c).2.Steady where
  sound := steady.sound.askAll steady.idle faithful requests
  idle := (steady.quiet.askAll source requests).idle
  answering := (steady.quiet.askAll source requests).answering

theorem Steady.ask (steady : c.Steady) (faithful : source.Faithful) (errand : Errand) (o : Owner) :
    (ask source errand o c).2.Steady := by
  have after := steady.askAll faithful [(errand, o)]
  rw [askAll_singleton] at after
  exact after

theorem grows_ask (steady : c.Steady) (faithful : source.Faithful) (errand : Errand) (o : Owner) :
    Grows c (ask source errand o c).2 := by
  have grows := grows_askAll steady.sound steady.idle faithful [(errand, o)]
  rw [askAll_singleton] at grows
  exact grows

theorem serves_ask (steady : c.Steady) (faithful : source.Faithful) {errand : Errand}
    (told : (ask source errand o c).1 = .ok keys) : (ask source errand o c).2.Serves o keys := by
  have asked : [(errand, o)][0]? = some (errand, o) := rfl
  have told : (Custody.askAll source [(errand, o)] c).1[0]? = some (.ok keys) := by
    rw [askAll_singleton]
    exact congrArg some told
  have serves := serves_askAll steady.sound steady.idle faithful asked told
  rw [askAll_singleton] at serves
  exact serves

theorem bootstrappingKey_same (source : KeySource) (evaluationKey : Bytes) (scheme : Scheme) (c : Custody) :
    ∃ cache, (bootstrappingKey source evaluationKey scheme c).2
      = { c with store := { c.store with bootstrapCache := cache } } := by
  unfold bootstrappingKey
  split
  case h_1 => exact ⟨c.store.bootstrapCache, rfl⟩
  case h_2 => exact ⟨_, rfl⟩

theorem grows_bootstrappingKey (source : KeySource) (evaluationKey : Bytes) (scheme : Scheme) (c : Custody) :
    Grows c (bootstrappingKey source evaluationKey scheme c).2 := by
  obtain ⟨cache, same⟩ := bootstrappingKey_same source evaluationKey scheme c
  rw [same]
  exact .of_eq rfl rfl rfl

theorem Quiet.bootstrappingKey (quiet : c.Quiet) (source : KeySource) (evaluationKey : Bytes)
    (scheme : Scheme) : (bootstrappingKey source evaluationKey scheme c).2.Quiet := by
  obtain ⟨cache, same⟩ := bootstrappingKey_same source evaluationKey scheme c
  rw [same]
  exact ⟨quiet.orderly.of_same rfl rfl, ⟨quiet.idle.loads, quiet.idle.cached⟩, quiet.answering⟩

/-- A new key store is quiet. -/
theorem quiet_new (answering : Answering c.custodian) {wrapper : KeyWrapper} {keyTtl bootstrapTtl : Float}
    {maxRetries : Int} (new : KeyStore.new wrapper keyTtl bootstrapTtl maxRetries = .ok c.store) : c.Quiet := by
  obtain ⟨-, -, loads, cache⟩ := new_eq_ok new
  refine ⟨⟨?_, ?_, ?_⟩, ⟨loads, ?_⟩, answering⟩
  · rw [cache]
  · rw [cache]
    exact Cache.tidy_empty keyTtl "key-cache"
  · rw [loads, cache]
    rfl
  · rw [cache]

theorem Steady.bootstrappingKey (steady : c.Steady) (source : KeySource) (evaluationKey : Bytes)
    (scheme : Scheme) : (bootstrappingKey source evaluationKey scheme c).2.Steady := by
  obtain ⟨cache, same⟩ := bootstrappingKey_same source evaluationKey scheme c
  have grows := grows_bootstrappingKey source evaluationKey scheme c
  rw [same] at grows ⊢
  exact ⟨steady.sound.of_grows grows rfl rfl rfl steady.sound.phases, ⟨steady.idle.loads, steady.idle.cached⟩,
    steady.answering⟩

end SealedFields.Custody
