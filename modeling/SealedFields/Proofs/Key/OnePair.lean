import SealedFields.Proofs.Key.Progress

/-!
# One key pair for each owner

A key store is asked for keys, callers give up, loads call the custodian and go on with its answers, and
time passes, in any order. Whatever happens, an owner has one key pair, and only a load that was asked to
create keys ever stores any.
-/

namespace SealedFields.Custody

/-! ## 1. Histories -/

/-- What can happen to a key store. Calls are numbered as they come. -/
inductive Event where
  | request (errand : Errand) (owner : Owner)
  | giveUp (call : Nat)
  /-- The custodian does what a load asks of it. -/
  | consult (load : Nat)
  /-- The custodian's answer arrives, and the load goes on. -/
  | resume (load : Nat)
  /-- The clock is read anew. -/
  | tick (now : Float)

structure Session where
  custody : Custody
  /-- What the custodian has answered to loads that have not gone on yet. -/
  pending : List (Nat × CustodianAnswer)
  /-- What each call so far asked for. -/
  asked : List (Errand × Owner)
  /-- What calls were told. -/
  answers : List (Nat × Cache.Outcome KeyPair)

namespace Session

def atOnce : Cache.Reply KeyPair → List (Cache.Outcome KeyPair)
  | .refused f => [.error f]
  | .hit keys => [.ok (some keys)]
  | .waits .. => []

/-- A load under way takes its next step, or ends. -/
def settle (s : Session) (l : KeyLoad) (next : Next) : Session :=
  let (told, custody) := Custody.settle l next s.custody
  { s with custody, answers := s.answers ++ told }

/-- What happens changes the key store; an event that cannot happen changes nothing. -/
def step (source : KeySource) (s : Session) : Event → Session
  | .request errand o =>
    let (reply, custody) := s.custody.request errand o s.asked.length
    { s with
      custody
      asked := s.asked ++ [(errand, o)]
      answers := s.answers ++ (atOnce reply).map (s.asked.length, ·) }
  | .giveUp call =>
    let store := s.custody.store
    { s with custody := { s.custody with store := { store with keyCache := store.keyCache.giveUp call } } }
  | .consult id =>
    match s.custody.store.loads.find? (·.id = id), Entries.get? s.pending id with
    | some l, none =>
      if s.custody.mayTry l.phase then
        let (answer, custody) := consult l.owner l.phase s.custody
        { s with custody, pending := Entries.put id answer s.pending }
      else { s with custody := s.custody.withLabel l.phase }.settle l (.finish (.error .noAttempt))
    | _, _ => s
  | .resume id =>
    match s.custody.store.loads.find? (·.id = id), Entries.get? s.pending id with
    | some l, some answer =>
      let (next, custody) := resume source l.owner l.errand l.phase answer s.custody
      { s with custody, pending := Entries.erase s.pending id }.settle l next
    | _, _ => s
  | .tick now => { s with custody := { s.custody with now } }

/-- A key store after a history, the latest event first. -/
def after (source : KeySource) (c : Custody) : List Event → Session
  | [] => ⟨c, [], [], []⟩
  | e :: earlier => (after source c earlier).step source e

/-! ## 2. What every event keeps -/

/-- A call learned an owner's keys, or a failure; those who may create keys do not learn that there are
none. -/
def Told (s : Session) (call : Nat) (outcome : Cache.Outcome KeyPair) : Prop :=
  ∃ errand o, s.asked[call]? = some (errand, o) ∧
    match outcome with
    | .ok keys => ∃ k, keys = some k ∧ s.custody.Serves o k
    | .error f => errand = .create → ¬ f.IsKeyMissing

/-- The invariant: answers on their way are true, loads were asked for, callers wait for what they asked
for, and what they were told is true. -/
structure Sound (s : Session) : Prop where
  custody : s.custody.Sound
  pending : ∀ id answer, Entries.get? s.pending id = some answer →
    ∃ l ∈ s.custody.store.loads, l.id = id ∧ s.custody.Answered l answer
  started : ∀ l ∈ s.custody.store.loads, (l.errand, l.owner) ∈ s.asked
  waiting : ∀ m ∈ s.custody.store.keyCache.loads, ∀ call ∈ m.waiting,
    s.asked[call]? = some (m.flight, m.key)
  answers : ∀ a ∈ s.answers, s.Told a.1 a.2

variable {source : KeySource} {s s' : Session}

theorem Told.mono {call : Nat} {outcome : Cache.Outcome KeyPair} (h : s.Told call outcome)
    (grows : Grows s.custody s'.custody) {more : List (Errand × Owner)}
    (asked_eq : s'.asked = s.asked ++ more) : s'.Told call outcome := by
  obtain ⟨errand, o, asked, h⟩ := h
  refine ⟨errand, o, ?_, ?_⟩
  · rw [asked_eq]
    exact (List.getElem?_append_left (List.getElem?_eq_some_iff.1 asked).1).trans asked
  · cases outcome with
    | error f => exact h
    | ok keys =>
      obtain ⟨k, hk, held⟩ := h
      exact ⟨k, hk, held.mono grows⟩

/-- The key store changes in what the invariant does not speak of; answers may be taken away. -/
theorem Sound.of_same (sound : s.Sound) {c : Custody} (custody : c.Sound)
    (custodian_eq : c.custodian = s.custody.custodian) (wrapper_eq : c.store.wrapper = s.custody.store.wrapper)
    (policy_eq : c.store.policy = s.custody.store.policy)
    (cache_eq : c.store.keyCache = s.custody.store.keyCache)
    (loads_eq : c.store.loads = s.custody.store.loads) {pending : List (Nat × CustodianAnswer)}
    (fewer : ∀ id answer, Entries.get? pending id = some answer → Entries.get? s.pending id = some answer) :
    Sound { s with custody := c, pending } where
  custody := custody
  pending id answer h := by
    obtain ⟨l, hl, id_eq, answered⟩ := sound.pending id answer (fewer id answer h)
    exact ⟨l, loads_eq ▸ hl, id_eq, answered.of_eq custodian_eq policy_eq⟩
  started := by
    show ∀ l ∈ c.store.loads, _
    rw [loads_eq]
    exact sound.started
  waiting := by
    show ∀ m ∈ c.store.keyCache.loads, _
    rw [cache_eq]
    exact sound.waiting
  answers a ha := (sound.answers a ha).mono (.of_eq custodian_eq wrapper_eq policy_eq) (List.append_nil _).symm

theorem Sound.giveUp (sound : s.Sound) (call : Nat) : (s.step source (.giveUp call)).Sound where
  custody := by
    obtain ⟨exact, opened, tidy, mirrored, entries, phases⟩ := sound.custody
    refine ⟨exact, opened, tidy.giveUp call, ?_, entries, phases⟩
    show _ = (s.custody.store.keyCache.loads.map _).map _
    rw [List.map_map]
    exact mirrored
  pending := sound.pending
  started := sound.started
  waiting m hm call' hc := by
    obtain ⟨m', hm', rfl⟩ := List.mem_map.1 hm
    exact sound.waiting m' hm' call' (List.mem_filter.1 hc).1
  answers a ha := (sound.answers a ha).mono ⟨rfl, rfl, id⟩ (List.append_nil _).symm

theorem Sound.request (sound : s.Sound) (errand : Errand) (o : Owner) :
    (s.step source (.request errand o)).Sound := by
  have grows := grows_request errand o s.asked.length s.custody
  have last : (s.asked ++ [(errand, o)])[s.asked.length]? = some (errand, o) := by simp
  obtain ⟨more, loads, new⟩ := loads_request errand o s.asked.length s.custody
  refine ⟨sound.custody.request errand o s.asked.length, ?_, ?_, ?_, ?_⟩
  · intro id answer h
    obtain ⟨l, hl, id_eq, answered⟩ := sound.pending id answer h
    refine ⟨l, ?_, id_eq, answered⟩
    show l ∈ (s.custody.request errand o s.asked.length).2.store.loads
    rw [loads]
    exact List.mem_append_left _ hl
  · show ∀ l ∈ (s.custody.request errand o s.asked.length).2.store.loads, _
    rw [loads]
    intro l hl
    rcases List.mem_append.1 hl with hl | hl
    · exact List.mem_append_left _ (sound.started l hl)
    · obtain ⟨errand_eq, owner_eq, -⟩ := new l hl
      rw [errand_eq, owner_eq]
      exact List.mem_append_right _ (List.mem_singleton_self _)
  · intro m hm call hc
    -- Who waits is the caller of this call, or waited before.
    rcases waiting_request sound.custody.orderly errand o s.asked.length m hm call hc with
      ⟨rfl, flight_eq, key_eq⟩ | ⟨m', hm', hc, flight_eq, key_eq⟩
    · rw [flight_eq, key_eq]
      exact last
    · have before := sound.waiting m' hm' call hc
      rw [flight_eq, key_eq] at before
      exact (List.getElem?_append_left (List.getElem?_eq_some_iff.1 before).1).trans before
  · intro a ha
    rcases List.mem_append.1 ha with ha | ha
    · exact (sound.answers a ha).mono grows rfl
    · have ha : a ∈ (atOnce (s.custody.request errand o s.asked.length).1).map (s.asked.length, ·) := ha
      -- A call is told something at once if it is refused or is a hit.
      cases hr : (s.custody.request errand o s.asked.length).1 with
      | refused f =>
        rw [hr] at ha
        obtain rfl := List.mem_singleton.1 ha
        exact ⟨errand, o, last, fun _ => not_isKeyMissing_refused hr⟩
      | hit keys =>
        rw [hr] at ha
        obtain rfl := List.mem_singleton.1 ha
        exact ⟨errand, o, last, keys, rfl, (sound.custody.hit hr).mono grows⟩
      | waits =>
        rw [hr] at ha
        exact absurd ha List.not_mem_nil

theorem Sound.settle (sound : s.Sound) {l : KeyLoad} {next : Next} (hl : l ∈ s.custody.store.loads)
    (idle : Entries.get? s.pending l.id = none) (follows : s.custody.Follows l next) :
    (s.settle l next).Sound := by
  have grows := grows_settle l next s.custody
  refine ⟨sound.custody.settle hl follows, ?_, ?_, ?_, ?_⟩
  · intro id answer h
    obtain ⟨m, hm, id_eq, answered⟩ := sound.pending id answer h
    -- The load that takes its step has no answer on its way any more.
    have other : m.id ≠ l.id := by
      intro same
      have h : Entries.get? s.pending id = some answer := h
      rw [← id_eq, same, idle] at h
      cases h
    exact ⟨m, mem_loads_settle hm other, id_eq, answered.of_eq (custodian_settle l next s.custody) grows.policy_eq⟩
  · intro m hm
    obtain ⟨m', hm', errand_eq, owner_eq⟩ := exists_of_mem_settle hm
    rw [← errand_eq, ← owner_eq]
    exact sound.started m' hm'
  · intro m hm
    exact sound.waiting m (mem_cached_of_settle hm)
  · intro a ha
    rcases List.mem_append.1 ha with ha | ha
    · exact (sound.answers a ha).mono grows (List.append_nil _).symm
    · obtain ⟨result, rfl, outcome_eq, m, hm, key_eq, flight_eq, waits⟩ := told_settle sound.custody hl ha
      -- Those who waited for the load have asked for its owner and errand.
      have asked := sound.waiting m hm a.1 waits
      rw [key_eq, flight_eq] at asked
      refine ⟨l.errand, l.owner, asked, ?_⟩
      rw [outcome_eq]
      cases result with
      | error f => exact follows
      | ok keys =>
        have held : s.custody.Serves l.owner keys := follows
        exact ⟨keys, rfl, held.mono grows⟩

theorem Sound.answer (sound : s.Sound) {l : KeyLoad} (hl : l ∈ s.custody.store.loads)
    (may : s.custody.mayTry l.phase = true) :
    Sound { s with
      custody := (Custody.consult l.owner l.phase s.custody).2
      pending := Entries.put l.id (Custody.consult l.owner l.phase s.custody).1 s.pending } := by
  have spec := consulted l.owner l.phase s.custody
  have phase := sound.custody.phases l hl
  have grows := spec.grows phase
  refine ⟨sound.custody.consult hl, ?_, ?_, ?_, ?_⟩
  · intro id answer h
    rw [Entries.get?_put] at h
    split at h
    case isTrue same =>
      obtain rfl := Option.some.inj h
      exact ⟨l, spec.loads_eq.symm ▸ hl, same.symm, answered_consult l phase may⟩
    case isFalse other =>
      obtain ⟨m, hm, id_eq, answered⟩ := sound.pending id answer h
      -- The answers to other loads stay true while this one calls.
      have ne : m ≠ l := fun he => other (by rw [← id_eq, he])
      exact ⟨m, spec.loads_eq.symm ▸ hm, id_eq, answered.consult sound.custody hm hl ne⟩
  · show ∀ m ∈ (Custody.consult l.owner l.phase s.custody).2.store.loads, _
    rw [spec.loads_eq]
    exact sound.started
  · show ∀ m ∈ (Custody.consult l.owner l.phase s.custody).2.store.keyCache.loads, _
    rw [spec.cache_eq]
    exact sound.waiting
  · intro a ha
    exact (sound.answers a ha).mono grows (List.append_nil _).symm

theorem Sound.consult (sound : s.Sound) (id : Nat) : (s.step source (.consult id)).Sound := by
  dsimp only [Session.step]
  split
  case h_1 l found idle =>
    have hl := List.mem_of_find?_eq_some found
    obtain rfl : l.id = id := by simpa using List.find?_some found
    split
    case isTrue may => exact sound.answer hl may
    case isFalse =>
      obtain ⟨custodian_eq, -, wrapper_eq, policy_eq, cache_eq, loads_eq⟩ := withLabel_same l.phase s.custody
      -- No attempt is allowed: the load ends with a failure that says so.
      have labelled := sound.of_same (sound.custody.withLabel l.phase) custodian_eq wrapper_eq policy_eq
        cache_eq loads_eq (fun _ _ h => h)
      refine labelled.settle (loads_eq.symm ▸ hl) idle fun _ => ?_
      rintro ⟨_, _, _, he⟩
      cases he
  case h_2 => exact sound

theorem Sound.resume (sound : s.Sound) (faithful : source.Faithful) (id : Nat) :
    (s.step source (.resume id)).Sound := by
  dsimp only [Session.step]
  split
  case h_1 l answer found pending =>
    have hl := List.mem_of_find?_eq_some found
    obtain rfl : l.id = id := by simpa using List.find?_some found
    obtain ⟨m, hm, id_eq, answered⟩ := sound.pending l.id answer pending
    obtain rfl := sound.custody.load_ext hm hl id_eq
    have follows := follows_resume faithful sound.custody hl answered
    have custody := sound.custody.resume source m.owner m.errand m.phase answer
    obtain ⟨entropy, same, -⟩ := resume_eq source m.owner m.errand m.phase answer s.custody
    -- The answer that has arrived is on its way no more.
    have idle := Entries.get?_erase_self m.id s.pending
    rw [same] at custody ⊢
    have arrived : Sound { s with
        custody := { s.custody with entropy }, pending := Entries.erase s.pending m.id } :=
      sound.of_same custody rfl rfl rfl rfl rfl fun _ _ => Entries.get?_of_get?_erase
    exact arrived.settle hl idle follows
  case h_2 => exact sound

theorem Sound.step (sound : s.Sound) (faithful : source.Faithful) (e : Event) : (s.step source e).Sound := by
  cases e with
  | request errand o => exact sound.request errand o
  | giveUp call => exact sound.giveUp call
  | consult id => exact sound.consult id
  | resume id => exact sound.resume faithful id
  | tick now =>
    have custody : Custody.Sound { s.custody with now } :=
      sound.custody.of_grows ⟨rfl, rfl, id⟩ rfl rfl rfl sound.custody.phases
    exact sound.of_same custody rfl rfl rfl rfl rfl (fun _ _ h => h)

/-! ## 3. Records -/

/-- An event stores nothing, or it is the custodian's work for a load that may create keys: such a load was
asked for, all who wait for it may create keys, and no other owner's record changes. -/
theorem custodian_step (source : KeySource) (sound : s.Sound) (e : Event) :
    ((s.step source e).custody.custodian.stores = s.custody.custodian.stores ∧
      (s.step source e).custody.custodian.records = s.custody.custodian.records) ∨
    ∃ l ∈ s.custody.store.loads, e = .consult l.id ∧ (.create, l.owner) ∈ s.asked ∧
      (∀ m ∈ s.custody.store.keyCache.loads, m.id = l.id →
        ∀ call ∈ m.waiting, s.asked[call]? = some (.create, l.owner)) ∧
      ∀ o ≠ l.owner, (s.step source e).custody.record? o = s.custody.record? o := by
  -- What callers are told does not touch the custodian.
  have settled (l : KeyLoad) (next : Next) (s' : Session) :
      (s'.settle l next).custody.custodian = s'.custody.custodian := custodian_settle l next s'.custody
  cases e with
  | request errand o => exact .inl ⟨rfl, rfl⟩
  | giveUp call => exact .inl ⟨rfl, rfl⟩
  | tick now => exact .inl ⟨rfl, rfl⟩
  | resume id =>
    dsimp only [Session.step]
    split
    case h_1 l answer found pending =>
      obtain ⟨entropy, same, -⟩ := resume_eq source l.owner l.errand l.phase answer s.custody
      rw [settled, same]
      exact .inl ⟨rfl, rfl⟩
    case h_2 => exact .inl ⟨rfl, rfl⟩
  | consult id =>
    dsimp only [Session.step]
    split
    case h_1 l found idle =>
      have hl := List.mem_of_find?_eq_some found
      obtain rfl : l.id = id := by simpa using List.find?_some found
      split
      case isTrue =>
        have spec := consulted l.owner l.phase s.custody
        have phase := sound.custody.phases l hl
        cases hp : l.phase with
        | lookingUp n =>
          -- A lookup stores nothing.
          have looked := spec.looked n hp
          rw [hp] at looked
          exact .inl looked
        | storing n keys r =>
          -- Only a load that may create keys gets to store them.
          obtain ⟨create, -⟩ := phase n keys r hp
          refine .inr ⟨l, hl, rfl, create ▸ sound.started l hl, fun m hm id_eq call hc => ?_, fun o ho => ?_⟩
          · obtain ⟨m', hm', id_eq', key_eq, flight_eq⟩ := sound.custody.orderly.exists_cached hl
            obtain rfl := sound.custody.tidy.load_ext hm hm' (id_eq.trans id_eq'.symm)
            have asked := sound.waiting m hm call hc
            rw [key_eq, flight_eq, create] at asked
            exact asked
          · rcases spec.record?_eq phase o with same | ⟨owner_eq, -⟩
            · rw [hp] at same
              exact same
            · exact absurd owner_eq ho
      case isFalse =>
        rw [settled]
        have same := (withLabel_same l.phase s.custody).1
        rw [same]
        exact .inl ⟨rfl, rfl⟩
    case h_2 => exact .inl ⟨rfl, rfl⟩

/-- Nothing that happens loses a record or changes it. -/
theorem grows_step (sound : s.Sound) (e : Event) : Grows s.custody (s.step source e).custody := by
  have settled (l : KeyLoad) (next : Next) (s' : Session) (grows : Grows s.custody s'.custody) :
      Grows s.custody (s'.settle l next).custody := grows.trans (grows_settle l next s'.custody)
  cases e with
  | request errand o => exact grows_request errand o _ s.custody
  | giveUp call => exact ⟨rfl, rfl, id⟩
  | tick now => exact ⟨rfl, rfl, id⟩
  | consult id =>
    dsimp only [Session.step]
    split
    case h_1 l found idle =>
      split
      case isTrue =>
        have phase := sound.custody.phases l (List.mem_of_find?_eq_some found)
        exact (consulted l.owner l.phase s.custody).grows phase
      case isFalse =>
        obtain ⟨custodian_eq, -, wrapper_eq, policy_eq, -⟩ := withLabel_same l.phase s.custody
        exact settled l _ _ (.of_eq custodian_eq wrapper_eq policy_eq)
    case h_2 => exact .refl _
  | resume id =>
    dsimp only [Session.step]
    split
    case h_1 l answer found pending =>
      exact settled l _ _ (grows_resume source l.owner l.errand l.phase answer s.custody)
    case h_2 => exact .refl _

theorem asked_step (source : KeySource) (s : Session) (e : Event) {a : Errand × Owner} (h : a ∈ s.asked) :
    a ∈ (s.step source e).asked := by
  cases e with
  | request errand o => exact List.mem_append_left _ h
  | giveUp call => exact h
  | tick now => exact h
  | consult id =>
    dsimp only [Session.step]
    split
    case h_1 => split <;> exact h
    case h_2 => exact h
  | resume id =>
    dsimp only [Session.step]
    split <;> exact h

/-! ## 4. Runs -/

variable {c : Custody} {wrapper : KeyWrapper} {keyTtl bootstrapTtl : Float} {maxRetries : Int}

theorem sound_after (faithful : source.Faithful) (exact : c.entropy.Exact)
    (new : KeyStore.new wrapper keyTtl bootstrapTtl maxRetries = .ok c.store) (history : List Event) :
    (after source c history).Sound := by
  -- Induction on the history, whose latest event comes first.
  induction history with
  | nil =>
    obtain ⟨-, -, loads, cache⟩ := new_eq_ok new
    refine ⟨sound_new exact new, (fun _ _ h => by cases h), ?_, ?_, (fun _ h => by cases h)⟩
    · show ∀ l ∈ c.store.loads, _
      rw [loads]
      exact fun _ h => by cases h
    · show ∀ m ∈ c.store.keyCache.loads, _
      rw [cache]
      exact fun _ h => by cases h
  | cons e earlier ih => exact ih.step faithful e

/-- What custody holds it holds ever after. -/
theorem grows_after (faithful : source.Faithful) (exact : c.entropy.Exact)
    (new : KeyStore.new wrapper keyTtl bootstrapTtl maxRetries = .ok c.store) (later history : List Event) :
    Grows (after source c history).custody (after source c (later ++ history)).custody := by
  induction later with
  | nil => exact .refl _
  | cons e later ih =>
    exact ih.trans (grows_step (sound_after faithful exact new (later ++ history)) e)

/-- Custody goes on holding what it held of an owner whose keys nobody asked to create. -/
theorem record?_after (faithful : source.Faithful) (exact : c.entropy.Exact)
    (new : KeyStore.new wrapper keyTtl bootstrapTtl maxRetries = .ok c.store) (history : List Event)
    {o : Owner} (never : (.create, o) ∉ (after source c history).asked) :
    (after source c history).custody.record? o = c.record? o := by
  induction history with
  | nil => rfl
  | cons e earlier ih =>
    have before : (.create, o) ∉ (after source c earlier).asked := fun h => never (asked_step source _ e h)
    rcases custodian_step source (sound_after faithful exact new earlier) e with
      ⟨-, same⟩ | ⟨l, -, -, asked, -, others⟩
    · rw [← ih before]
      unfold record?
      rw [after, same]
    · refine (others o ?_).trans (ih before)
      rintro rfl
      exact before asked

/-- In every history each owner has one key pair: whoever is told an owner's keys is told those that
custody holds, and no record in custody is ever replaced. Nothing is stored for a call that only looks keys
up, and no call that may create keys is told that there are none. -/
theorem one_key_pair_per_owner (faithful : source.Faithful) (exact : c.entropy.Exact)
    (new : KeyStore.new wrapper keyTtl bootstrapTtl maxRetries = .ok c.store) (history : List Event) :
    let s := after source c history
    (∀ a b errand errand' o keys keys', s.asked[a]? = some (errand, o) → s.asked[b]? = some (errand', o) →
      (a, .ok keys) ∈ s.answers → (b, .ok keys') ∈ s.answers →
        keys = keys' ∧ ∃ k, keys = some k ∧ s.custody.Holds o k) ∧
    (∀ o r, s.custody.record? o = some r →
      ∀ later, (after source c (later ++ history)).custody.record? o = some r) ∧
    (∀ e, ((s.step source e).custody.custodian.stores = s.custody.custodian.stores ∧
        (s.step source e).custody.custodian.records = s.custody.custodian.records) ∨
      ∃ l ∈ s.custody.store.loads, e = .consult l.id ∧ (.create, l.owner) ∈ s.asked ∧
        (∀ m ∈ s.custody.store.keyCache.loads, m.id = l.id →
          ∀ call ∈ m.waiting, s.asked[call]? = some (.create, l.owner)) ∧
        ∀ o ≠ l.owner, (s.step source e).custody.record? o = s.custody.record? o) ∧
    (∀ o, (.create, o) ∉ s.asked → s.custody.record? o = c.record? o) ∧
    (∀ call o f, s.asked[call]? = some (.create, o) → (call, .error f) ∈ s.answers → ¬ f.IsKeyMissing) := by
  have sound := sound_after faithful exact new history
  -- Who is told keys is told those in custody, of which there is one pair.
  have told {call : Nat} {errand : Errand} {o : Owner} {keys : Option KeyPair}
      (asked : (after source c history).asked[call]? = some (errand, o))
      (h : (call, .ok keys) ∈ (after source c history).answers) :
      ∃ k, keys = some k ∧ (after source c history).custody.Holds o k := by
    obtain ⟨errand', o', asked', k, hk, held⟩ := sound.answers _ h
    obtain ⟨-, rfl⟩ := Prod.mk.inj (Option.some.inj (asked.symm.trans asked'))
    exact ⟨k, hk, held.1⟩
  refine ⟨?_, ?_, ?_, ?_, ?_⟩
  · intro a b errand errand' o keys keys' ha hb hk hk'
    obtain ⟨k, rfl, held⟩ := told ha hk
    obtain ⟨k', rfl, held'⟩ := told hb hk'
    exact ⟨by rw [held.unique held'], k, rfl, held⟩
  · intro o r hr later
    exact (grows_after faithful exact new later history).records hr
  · exact custodian_step source sound
  · intro o never
    exact record?_after faithful exact new history never
  · intro call o f asked h
    obtain ⟨errand, o', asked', plain⟩ := sound.answers _ h
    obtain ⟨rfl, -⟩ := Prod.mk.inj (Option.some.inj (asked.symm.trans asked'))
    exact plain rfl

/-- An empty key store in front of an empty custodian. -/
def fresh : Custody where
  store := ⟨.ephemeral 0, KeyStore.custodyPolicy 2, "unknown", ⟨"key-cache", 10.0, [], [], 0, false, 0, 0⟩,
    ⟨"bootstrap-key-cache", 20.0, [], [], 0, false, 0, 0⟩, []⟩
  custodian := .empty
  entropy := .reproducible
  now := 0.0
  waits := []

/-- Two callers have keys made, the first of them gives up, and a third one looks the keys up. -/
def handedOver (o : Owner) : List Event :=
  [.request .lookup o, .resume 0, .consult 0, .resume 0, .giveUp 0, .consult 0, .request .create o,
    .request .create o]

theorem one_key_pair_per_owner_handedOver :
    let s := after .standard fresh (handedOver ⟨"0xab", .bfv⟩)
    ∃ keys keys', (1, .ok keys) ∈ s.answers ∧ (2, .ok keys') ∈ s.answers ∧ keys = keys' := by
  have new : KeyStore.new (.ephemeral 0) 10.0 20.0 2 = .ok fresh.store := rfl
  have safe := one_key_pair_per_owner KeySource.faithful_standard Entropy.exact_reproducible new
    (handedOver ⟨"0xab", .bfv⟩)
  have asked : (after .standard fresh (handedOver ⟨"0xab", .bfv⟩)).asked
      = [(.create, ⟨"0xab", .bfv⟩), (.create, ⟨"0xab", .bfv⟩), (.lookup, ⟨"0xab", .bfv⟩)] := rfl
  obtain ⟨keys, keys', answers⟩ : ∃ keys keys', (after .standard fresh (handedOver ⟨"0xab", .bfv⟩)).answers
      = [(1, .ok keys), (2, .ok keys')] := ⟨_, _, rfl⟩
  have first : (1, .ok keys) ∈ (after .standard fresh (handedOver ⟨"0xab", .bfv⟩)).answers := by simp [answers]
  have second : (2, .ok keys') ∈ (after .standard fresh (handedOver ⟨"0xab", .bfv⟩)).answers := by
    simp [answers]
  refine ⟨keys, keys', first, second, ?_⟩
  exact (safe.1 1 2 .create .lookup ⟨"0xab", .bfv⟩ keys keys' (by rw [asked]; rfl) (by rw [asked]; rfl)
    first second).1

end Session

end SealedFields.Custody
