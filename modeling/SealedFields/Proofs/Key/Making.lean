import SealedFields.Proofs.Key.Tampering

/-!
# Keys that are made

An owner who has no keys in custody is given some. As long as every record in custody opens, a call that may make
keys is refused for one reason only: nothing can be bound to an owner whose name has no bytes.
-/

namespace SealedFields.Custody

variable {c c' : Custody} {source : KeySource} {l : KeyLoad} {o : Owner} {keys : KeyPair} {r : KeyRecord}

/-! ## 1. Custody that opens -/

/-- Every record in custody opens to keys. -/
def Openable (c : Custody) : Prop := ∀ o r, c.record? o = some r → ∃ keys, openRecord c.store.wrapper o r = .ok keys

theorem Openable.of_eq (openable : c.Openable) (custodian_eq : c'.custodian = c.custodian)
    (wrapper_eq : c'.store.wrapper = c.store.wrapper) : c'.Openable := by
  unfold Openable record?
  rw [custodian_eq, wrapper_eq]
  exact openable

/-- The only record that a call to the custodian stores is one that was made of keys. -/
theorem Openable.consult (openable : c.Openable) (phase : c.PhaseSound l.owner l.errand l.phase) :
    (consult l.owner l.phase c).2.Openable := by
  have spec := consulted l.owner l.phase c
  intro o r held
  rw [spec.wrapper_eq]
  rcases spec.record?_eq phase o with same | ⟨rfl, -, n, keys, r', stores, held'⟩
  · exact openable o r (same ▸ held)
  · obtain rfl := Option.some.inj (held.symm.trans held')
    exact ⟨keys, (phase n keys r stores).2.1.opens⟩

namespace Session

variable {s : Session}

theorem openable_step (source : KeySource) (sound : s.Sound) (openable : s.custody.Openable) (e : Event) :
    (s.step source e).custody.Openable := by
  have settled (l : KeyLoad) (next : Next) (s' : Session) (openable : s'.custody.Openable) :
      (s'.settle l next).custody.Openable :=
    openable.of_eq (custodian_settle l next s'.custody) (grows_settle l next s'.custody).wrapper_eq
  cases e with
  | request errand o => exact openable
  | giveUp call => exact openable
  | tick now => exact openable
  | consult id =>
    dsimp only [Session.step]
    split
    case h_1 l found idle =>
      split
      case isTrue => exact openable.consult (sound.custody.phases l (List.mem_of_find?_eq_some found))
      case isFalse =>
        obtain ⟨custodian_eq, -, wrapper_eq, -⟩ := withLabel_same l.phase s.custody
        exact settled l _ _ (openable.of_eq custodian_eq wrapper_eq)
    case h_2 => exact openable
  | resume id =>
    dsimp only [Session.step]
    split
    case h_1 l answer found pending =>
      obtain ⟨entropy, same, -⟩ := resume_eq source l.owner l.errand l.phase answer s.custody
      refine settled l _ _ (openable.of_eq ?_ ?_) <;> rw [same]
    case h_2 => exact openable

theorem openable_run (sound : s.Sound) (faithful : source.Faithful) (openable : s.custody.Openable)
    (events : List Event) : (s.run source events).custody.Openable := by
  induction events generalizing s with
  | nil => exact openable
  | cons e events ih => exact ih (sound.step faithful e) (openable_step source sound openable e)

end Session

theorem Openable.askAll (openable : c.Openable) (steady : c.Steady) (faithful : source.Faithful)
    (requests : List (Errand × Owner)) : (askAll source requests c).2.Openable := by
  obtain ⟨events, answers, run, -⟩ := Session.exists_run_askAll source requests c
  have after := Session.openable_run (steady.idle.session steady.sound) faithful openable events
  rw [run] at after
  exact after

theorem Openable.bootstrappingKey (openable : c.Openable) (source : KeySource) (evaluationKey : Bytes)
    (scheme : Scheme) : (bootstrappingKey source evaluationKey scheme c).2.Openable := by
  obtain ⟨cache, same⟩ := bootstrappingKey_same source evaluationKey scheme c
  rw [same]
  exact openable.of_eq rfl rfl

/-! ## 2. A load that is alone -/

/-- The only load there is, with one caller who waits for it. -/
structure Alone (c : Custody) (l : KeyLoad) : Prop where
  loads : c.store.loads = [l]
  cached : c.store.keyCache.loads = [⟨l.id, l.owner, l.errand, [0]⟩]

namespace Alone

theorem found (alone : c.Alone l) : c.store.loads.find? (·.id = l.id) = some l := by
  rw [alone.loads]
  exact List.find?_cons_of_pos (by simp)

/-- With its last step the load tells its caller what it comes to. -/
theorem finish (alone : c.Alone l) {result : Except Failure KeyPair}
    (last : (step source l.owner l.errand l.phase c).1 = .finish result) (steps : Nat) :
    (finish source l.id (steps + 1) c).1 = [(0, result.map some)] := by
  have told : (advance source l c).1 = [(0, result.map some)] := by
    have cache_eq := (loads_step source l.owner l.errand l.phase c).2
    unfold advance
    dsimp only
    rw [last]
    unfold settle
    dsimp only
    rw [cache_eq]
    unfold Cache.complete
    rw [alone.cached]
    simp
  have gone : ∀ m ∈ (advance source l c).2.store.loads, m.id ≠ l.id := fun m hm => (mem_advance_of_finish last m hm).2
  rw [Custody.finish, alone.found]
  dsimp only
  rw [finish_of_gone gone, told]
  rfl

/-- A step that is not the last tells nobody anything. -/
theorem go (alone : c.Alone l) {phase : Phase} (next : (step source l.owner l.errand l.phase c).1 = .go phase) :
    (advance source l c).1 = [] ∧ (advance source l c).2.Alone { l with phase } := by
  obtain ⟨loads_eq, cache_eq⟩ := loads_step source l.owner l.errand l.phase c
  unfold advance
  dsimp only
  rw [next]
  refine ⟨rfl, ⟨?_, ?_⟩⟩
  · show inPhase _ l phase = _
    unfold inPhase
    rw [loads_eq, alone.loads]
    simp
  · show (step source l.owner l.errand l.phase c).2.store.keyCache.loads = _
    rw [cache_eq]
    exact alone.cached

end Alone

/-! ## 3. A call that may make keys -/

/-- Engines that make keys for a scheme. -/
def Makes (source : KeySource) (scheme : Scheme) : Prop :=
  source.broken = none ∧ ∃ p, source.engine scheme = .ok p

/-- What a load leaves of a key store that found no record: counts, its label and less randomness. -/
def afterMiss (c : Custody) (entropy : Entropy) : Custody :=
  { c with
    store := { c.store with label := "retrieve_keys" }
    custodian := { c.custodian with retrievals := c.custodian.retrievals + 1 }
    entropy }

/-- Keys that were made are stored next, unless nothing can be bound to their owner. -/
theorem step_missing (answering : Answering c.custodian) (tries : 0 ≤ c.store.policy.maxRetries)
    (missing : c.record? o = none) (makes : Makes source o.scheme) : ∃ next entropy,
      step source o .create (.lookingUp 0) c = (next, c.afterMiss entropy) ∧
        match o.identity.utf8? with
        | some _ => ∃ keys r, next = .go (.storing 0 keys r)
        | none => next = .finish (.error .unencodable) := by
  obtain ⟨whole, p, engine⟩ := makes
  have may : c.mayTry (.lookingUp 0) = true := decide_eq_true tries
  have found : Entries.get? c.custodian.records o = none := missing
  have retrieved : c.custodian.retrieve o
      = (.ok none, { c.custodian with retrievals := c.custodian.retrievals + 1 }) := by
    unfold Custodian.retrieve
    rw [answering.retrievals, found]
  have labelled : c.withLabel (.lookingUp 0) = { c with store := { c.store with label := "retrieve_keys" } } := rfl
  have stepped : step source o .create (.lookingUp 0) c = makeKeys source o (c.afterMiss c.entropy) := by
    unfold step Custody.consult
    rw [if_pos may, labelled]
    dsimp only
    rw [retrieved]
    rfl
  obtain ⟨forDecryption, decryption⟩ := o.associatedData_eq .decryption
  obtain ⟨forEvaluation, evaluation⟩ := o.associatedData_eq .evaluation
  rw [stepped]
  unfold makeKeys KeySource.generate
  rw [engine, whole]
  dsimp only
  unfold closeRecord
  cases named : o.identity.utf8? with
  | none =>
    rw [named] at decryption
    rw [decryption]
    exact ⟨_, _, rfl, rfl⟩
  | some bs =>
    rw [named] at decryption evaluation
    rw [decryption, evaluation]
    exact ⟨_, _, rfl, _, _, rfl⟩

theorem step_storing (answering : Answering c.custodian) (tries : 0 ≤ c.store.policy.maxRetries) (source : KeySource)
    (o : Owner) (errand : Errand) (keys : KeyPair) (r : KeyRecord) :
    (step source o errand (.storing 0 keys r) c).1 = .finish (.ok keys) := by
  have may : c.mayTry (.storing 0 keys r) = true := decide_eq_true tries
  have answer := answer_storing answering o 0 keys r
  unfold step
  rw [if_pos may]
  dsimp only
  rw [answer]
  rfl

/-- The owner of a record that opens has a name with bytes. -/
theorem encodable_of_opens {w : KeyWrapper} (opens : openRecord w o r = .ok keys) : ∃ bs, o.identity.utf8? = some bs := by
  obtain ⟨associated, bound, -⟩ := Outcome.bind_eq_ok_iff.1 opens
  obtain ⟨suffix, same⟩ := o.associatedData_eq .decryption
  rw [same] at bound
  cases named : o.identity.utf8? with
  | none =>
    rw [named] at bound
    cases bound
  | some bs => exact ⟨bs, rfl⟩

theorem alone_started (errand : Errand) (o : Owner) (c : Custody) :
    (c.started errand o).Alone ⟨c.store.keyCache.nextLoad, o, errand, .lookingUp 0⟩ := ⟨rfl, rfl⟩

/-- A call that finds nothing cached is told what its load comes to. -/
theorem ask_missing (quiet : c.Quiet) (missing : c.cached? o = none) (errand : Errand)
    {result : Except Failure KeyPair}
    (told : ∀ steps, (finish source c.store.keyCache.nextLoad (steps + 2) (c.started errand o)).1
      = [(0, result.map some)]) : (ask source errand o c).1 = result := by
  unfold ask
  rw [request_missing quiet missing errand]
  show Cache.Reply.settled ((finish source c.store.keyCache.nextLoad (maxSteps _) (c.started errand o)).1 ++ []) 0
    (.waits _ true) = _
  unfold maxSteps
  rw [told]
  cases result <;> rfl

/-- What is cached is in custody, under a name that has bytes. -/
theorem ask_cached (steady : c.Steady) (cached : c.cached? o = some keys) (source : KeySource) (errand : Errand) :
    (ask source errand o c).1 = .ok keys ∧ ∃ bs, o.identity.utf8? = some bs := by
  have replied : (c.request errand o 0).1 = .hit keys :=
    Cache.request_of_live steady.sound.tidy steady.sound.opened cached errand 0
  obtain ⟨⟨r, -, opens⟩, -⟩ := steady.sound.hit replied
  refine ⟨?_, encodable_of_opens opens⟩
  unfold ask
  dsimp only
  rw [replied]
  rfl

/-- What is held is loaded in one step. -/
theorem ask_held (steady : c.Steady) (tries : 0 ≤ c.store.policy.maxRetries) (missing : c.cached? o = none)
    (held : c.record? o = some r) (opens : openRecord c.store.wrapper o r = .ok keys) (source : KeySource)
    (errand : Errand) : (ask source errand o c).1 = .ok keys := by
  have answering : Answering (c.started errand o).custodian := steady.answering
  have tries : 0 ≤ (c.started errand o).store.policy.maxRetries := tries
  have held : (c.started errand o).record? o = some r := held
  have opens : openRecord (c.started errand o).store.wrapper o r = .ok keys := opens
  have last := congrArg Prod.fst (step_found answering tries held source errand)
  rw [opens] at last
  exact ask_missing steady.quiet missing errand fun steps => (c.alone_started errand o).finish last (steps + 1)

/-- What is not held is made, and stored in a second step. -/
theorem ask_made (steady : c.Steady) (tries : 0 ≤ c.store.policy.maxRetries) (makes : Makes source o.scheme)
    (missing : c.cached? o = none) (unheld : c.record? o = none) :
    match o.identity.utf8? with
    | some _ => ∃ keys, (ask source .create o c).1 = .ok keys
    | none => (ask source .create o c).1 = .error .unencodable := by
  have alone := c.alone_started .create o
  have answering : Answering (c.started .create o).custodian := steady.answering
  have tries : 0 ≤ (c.started .create o).store.policy.maxRetries := tries
  have unheld : (c.started .create o).record? o = none := unheld
  obtain ⟨next, entropy, stepped, made⟩ := step_missing answering tries unheld makes
  have first := congrArg Prod.fst stepped
  cases named : o.identity.utf8? with
  | none =>
    rw [named] at made
    rw [made] at first
    exact ask_missing steady.quiet missing .create fun steps => alone.finish first (steps + 1)
  | some bs =>
    rw [named] at made
    obtain ⟨keys, r, rfl⟩ := made
    obtain ⟨silent, alone'⟩ := alone.go first
    have tries' : 0 ≤ (advance source ⟨c.store.keyCache.nextLoad, o, .create, .lookingUp 0⟩
        (c.started .create o)).2.store.policy.maxRetries := by
      unfold advance
      rw [stepped]
      exact tries
    have last := step_storing (answering.advance source _) tries' source o .create keys r
    refine ⟨keys, ask_missing steady.quiet missing .create fun steps => ?_⟩
    have told := alone'.finish last steps
    rw [finish, alone.found]
    dsimp only
    rw [silent]
    exact told

/-- Whoever may have keys made is given some, old or new, unless nothing can be bound to their name. -/
theorem ask_create (steady : c.Steady) (openable : c.Openable) (tries : 0 ≤ c.store.policy.maxRetries)
    (makes : Makes source o.scheme) :
    match o.identity.utf8? with
    | some _ => ∃ keys, (ask source .create o c).1 = .ok keys
    | none => (ask source .create o c).1 = .error .unencodable := by
  cases cached : c.cached? o with
  | some keys =>
    obtain ⟨told, bs, named⟩ := ask_cached steady cached source .create
    rw [named]
    exact ⟨keys, told⟩
  | none =>
    cases held : c.record? o with
    | some r =>
      obtain ⟨keys, opens⟩ := openable o r held
      obtain ⟨bs, named⟩ := encodable_of_opens opens
      rw [named]
      exact ⟨keys, ask_held steady tries cached held opens source .create⟩
    | none => exact ask_made steady tries makes cached held

/-! ## 4. Between two calls -/

/-- A key store that has nothing under way, opens what it holds and may call its custodian. -/
structure Able (c : Custody) : Prop where
  steady : c.Steady
  openable : c.Openable
  tries : 0 ≤ c.store.policy.maxRetries

theorem Able.at (able : c.Able) (now : Float) (waits : List Float) : Able { c with now, waits } :=
  ⟨able.steady.at now waits, able.openable, able.tries⟩

theorem Able.askAll (able : c.Able) (faithful : source.Faithful) (requests : List (Errand × Owner)) :
    (askAll source requests c).2.Able where
  steady := able.steady.askAll faithful requests
  openable := able.openable.askAll able.steady faithful requests
  tries := by
    rw [(grows_askAll able.steady.sound able.steady.idle faithful requests).policy_eq]
    exact able.tries

theorem Able.ask (able : c.Able) (faithful : source.Faithful) (errand : Errand) (o : Owner) :
    (ask source errand o c).2.Able := by
  have after := able.askAll faithful [(errand, o)]
  rw [askAll_singleton] at after
  exact after

theorem Able.bootstrappingKey (able : c.Able) (source : KeySource) (evaluationKey : Bytes) (scheme : Scheme) :
    (bootstrappingKey source evaluationKey scheme c).2.Able where
  steady := able.steady.bootstrappingKey source evaluationKey scheme
  openable := able.openable.bootstrappingKey source evaluationKey scheme
  tries := by
    rw [(grows_bootstrappingKey source evaluationKey scheme c).policy_eq]
    exact able.tries

end SealedFields.Custody
