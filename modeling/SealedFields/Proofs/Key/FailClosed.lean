import SealedFields.Proofs.Key.Tampering

/-!
# Corrupted custody fails closed

Keys whose record was tampered with are never handed out: whatever happens to a key store, every call for them is
refused, none are cached or made in their stead, and the record stays.
-/

namespace SealedFields.Custody

namespace Session

variable {source : KeySource} {s : Session} {c : Custody} {o : Owner} {r : KeyRecord} {f : Failure}
  {l : KeyLoad} {next : Next} {keys : KeyPair}

/-! ## 1. What every event keeps -/

/-- The custodian answers, with a record that does not open for its owner. The owner's loads look up the record for
the first time, or are on their way to finding it, and calls that have ended were told that it does not open. -/
structure Barred (o : Owner) (r : KeyRecord) (f : Failure) (s : Session) : Prop where
  sound : s.Sound
  answering : Answering s.custody.custodian
  tries : 0 ≤ s.custody.store.policy.maxRetries
  held : s.custody.record? o = some r
  refused : openRecord s.custody.store.wrapper o r = .error f
  looks : ∀ l ∈ s.custody.store.loads, l.owner = o → l.phase = .lookingUp 0 ∧
    ∀ answer, Entries.get? s.pending l.id = some answer → answer = .found (.ok (some r))
  told : ∀ a ∈ s.answers, ∀ errand, s.asked[a.1]? = some (errand, o) → a.2 = .error f

namespace Barred

theorem not_serves (barred : s.Barred o r f) : ¬ s.custody.Serves o keys := by
  rintro ⟨⟨r', held, opens⟩, -⟩
  obtain rfl := Option.some.inj (barred.held.symm.trans held)
  rw [barred.refused] at opens
  cases opens

/-- What is cached is in custody and opens. -/
theorem not_cached (barred : s.Barred o r f) : ∀ e ∈ s.custody.store.keyCache.entries, e.1 ≠ o := by
  rintro e he rfl
  obtain ⟨keys, -, serves⟩ := barred.sound.custody.entries e he
  exact barred.not_serves serves

theorem request (barred : s.Barred o r f) (errand : Errand) (other : Owner) :
    (s.step source (.request errand other)).Barred o r f := by
  have sound : (s.step source (.request errand other)).Sound := barred.sound.request errand other
  obtain ⟨more, loads, new⟩ := loads_request errand other s.asked.length s.custody
  refine ⟨sound, barred.answering, barred.tries, barred.held, barred.refused, fun l hl owned => ⟨?_, ?_⟩, ?_⟩
  · have hl : l ∈ (s.custody.request errand other s.asked.length).2.store.loads := hl
    rw [loads] at hl
    rcases List.mem_append.1 hl with hl | hl
    · exact (barred.looks l hl owned).1
    · exact (new l hl).2.2.2
  · intro answer arriving
    -- Nothing is on its way yet to a load that the call has started.
    obtain ⟨m, hm, same, -⟩ := barred.sound.pending l.id answer arriving
    have there : m ∈ (s.custody.request errand other s.asked.length).2.store.loads := by
      rw [loads]
      exact List.mem_append_left _ hm
    obtain rfl := sound.custody.load_ext there hl same
    exact (barred.looks m hm owned).2 answer arriving
  · intro a ha errand' asked
    rcases List.mem_append.1 ha with ha | ha
    · obtain ⟨errand₀, o₀, before, -⟩ := barred.sound.answers a ha
      have kept : (s.asked ++ [(errand, other)])[a.1]? = s.asked[a.1]? :=
        List.getElem?_append_left (List.getElem?_eq_some_iff.1 before).1
      exact barred.told a ha errand' (kept.symm.trans asked)
    · have ha : a ∈ (atOnce (s.custody.request errand other s.asked.length).1).map (s.asked.length, ·) := ha
      cases reply : (s.custody.request errand other s.asked.length).1 with
      | waits =>
        rw [reply] at ha
        exact absurd ha List.not_mem_nil
      | refused g =>
        -- The cache is open.
        have spec := Cache.request_spec s.custody.now other errand s.asked.length s.custody.store.keyCache
        have reply : (s.custody.store.keyCache.request s.custody.now other errand s.asked.length).1 = .refused g :=
          reply
        rw [reply] at spec
        generalize (s.custody.store.keyCache.request s.custody.now other errand s.asked.length).2 = c' at spec
        cases spec with
        | refused closed =>
          rw [barred.sound.custody.opened] at closed
          cases closed
      | hit keys =>
        rw [reply] at ha
        obtain rfl := List.mem_singleton.1 ha
        have last : (s.asked ++ [(errand, other)])[s.asked.length]? = some (errand, other) := by simp
        obtain ⟨rfl, rfl⟩ := Prod.mk.inj (Option.some.inj (last.symm.trans asked))
        exact absurd (barred.sound.custody.hit reply) barred.not_serves

/-- A load goes on; one of the barred owner ends, refused. -/
theorem settle (barred : s.Barred o r f) (hl : l ∈ s.custody.store.loads)
    (idle : Entries.get? s.pending l.id = none) (follows : s.custody.Follows l next)
    (ends : l.owner = o → next = .finish (.error f)) : (s.settle l next).Barred o r f := by
  have sound := barred.sound.settle hl idle follows
  have grows := grows_settle l next s.custody
  have custodian : (s.settle l next).custody.custodian = s.custody.custodian := custodian_settle l next s.custody
  refine ⟨sound, custodian ▸ barred.answering, ?_, grows.records barred.held, ?_, fun m hm owned => ⟨?_, ?_⟩, ?_⟩
  · show 0 ≤ (Custody.settle l next s.custody).2.store.policy.maxRetries
    rw [grows.policy_eq]
    exact barred.tries
  · show openRecord (Custody.settle l next s.custody).2.store.wrapper o r = _
    rw [grows.wrapper_eq]
    exact barred.refused
  · have another (phase : Phase) (hm : m ∈ s.custody.inPhase l phase) (goes : next ≠ .finish (.error f)) :
        m.phase = .lookingUp 0 := by
      rcases mem_inPhase barred.sound.custody hl hm with rfl | ⟨hm, -⟩
      · exact absurd (ends owned) goes
      · exact (barred.looks m hm owned).1
    cases next with
    | go phase => exact another phase hm (fun h => by cases h)
    | wait delay phase => exact another phase hm (fun h => by cases h)
    | finish result => exact (barred.looks m (List.mem_filter.1 hm).1 owned).1
  · intro answer arriving
    obtain ⟨k, hk, same, -⟩ := barred.sound.pending m.id answer arriving
    have other : k.id ≠ l.id := by
      intro equal
      have arriving : Entries.get? s.pending m.id = some answer := arriving
      rw [← same, equal, idle] at arriving
      cases arriving
    obtain rfl := sound.custody.load_ext (mem_loads_settle hk other) hm same
    exact (barred.looks k hk owned).2 answer arriving
  · intro a ha errand asked
    rcases List.mem_append.1 ha with ha | ha
    · exact barred.told a ha errand asked
    · -- Who is told now has asked for the keys of the load's owner.
      obtain ⟨result, rfl, outcome, m, hm, key_eq, -, waits⟩ := told_settle barred.sound.custody hl ha
      have waited := barred.sound.waiting m hm a.1 waits
      obtain ⟨-, owned⟩ := Prod.mk.inj (Option.some.inj (waited.symm.trans asked))
      obtain rfl := Next.finish.inj (ends (key_eq.symm.trans owned))
      exact outcome

theorem consult (barred : s.Barred o r f) (id : Nat) : (s.step source (.consult id)).Barred o r f := by
  dsimp only [Session.step]
  split
  case h_2 => exact barred
  case h_1 l found idle =>
    have hl := List.mem_of_find?_eq_some found
    obtain rfl : l.id = id := by simpa using List.find?_some found
    have spec := consulted l.owner l.phase s.custody
    have grows := spec.grows (barred.sound.custody.phases l hl)
    split
    case isTrue may =>
      refine ⟨barred.sound.answer hl may, barred.answering.consult l.owner l.phase, grows.policy_eq ▸ barred.tries,
        grows.records barred.held, grows.wrapper_eq ▸ barred.refused, ?_, barred.told⟩
      show ∀ m ∈ (Custody.consult l.owner l.phase s.custody).2.store.loads, _
      rw [spec.loads_eq]
      intro m hm owned
      refine ⟨(barred.looks m hm owned).1, fun answer arriving => ?_⟩
      rw [Entries.get?_put] at arriving
      split at arriving
      case isTrue same =>
        -- The custodian has looked for the record, and found it.
        obtain rfl := barred.sound.custody.load_ext hm hl same
        have answered := answer_lookingUp barred.answering m.owner 0
        rw [← (barred.looks m hm owned).1, owned, barred.held] at answered
        obtain rfl := Option.some.inj arriving
        rw [owned]
        exact answered
      case isFalse => exact (barred.looks m hm owned).2 answer arriving
    case isFalse never =>
      obtain ⟨custodian_eq, -, wrapper_eq, policy_eq, cache_eq, loads_eq⟩ := withLabel_same l.phase s.custody
      have sound := barred.sound.of_same (barred.sound.custody.withLabel l.phase) custodian_eq wrapper_eq policy_eq
        cache_eq loads_eq (fun _ _ h => h)
      have labelled : Barred o r f { s with custody := s.custody.withLabel l.phase } := by
        refine ⟨sound, custodian_eq ▸ barred.answering, policy_eq ▸ barred.tries, ?_, wrapper_eq ▸ barred.refused,
          loads_eq ▸ barred.looks, barred.told⟩
        show Entries.get? (s.custody.withLabel l.phase).custodian.records o = some r
        rw [custodian_eq]
        exact barred.held
      refine labelled.settle (loads_eq.symm ▸ hl) idle (fun _ => ?_) (fun owned => absurd ?_ never)
      · rintro ⟨_, _, _, he⟩
        cases he
      · -- A first attempt is always allowed.
        rw [(barred.looks l hl owned).1]
        exact decide_eq_true barred.tries

theorem resume (barred : s.Barred o r f) (faithful : source.Faithful) (id : Nat) :
    (s.step source (.resume id)).Barred o r f := by
  dsimp only [Session.step]
  split
  case h_2 => exact barred
  case h_1 l answer found pending =>
    have hl := List.mem_of_find?_eq_some found
    obtain rfl : l.id = id := by simpa using List.find?_some found
    obtain ⟨m, hm, id_eq, answered⟩ := barred.sound.pending l.id answer pending
    obtain rfl := barred.sound.custody.load_ext hm hl id_eq
    have follows := follows_resume faithful barred.sound.custody hl answered
    have custody := barred.sound.custody.resume source m.owner m.errand m.phase answer
    have ends : m.owner = o → (Custody.resume source m.owner m.errand m.phase answer s.custody).1
        = .finish (.error f) := by
      intro owned
      obtain ⟨phase, arrived⟩ := barred.looks m hl owned
      rw [arrived answer pending, phase, owned]
      exact congrArg Next.finish barred.refused
    obtain ⟨entropy, same, -⟩ := resume_eq source m.owner m.errand m.phase answer s.custody
    have idle := Entries.get?_erase_self m.id s.pending
    rw [same] at custody ⊢
    have arrived : Barred o r f
        { s with custody := { s.custody with entropy }, pending := Entries.erase s.pending m.id } := by
      refine ⟨barred.sound.of_same custody rfl rfl rfl rfl rfl fun _ _ => Entries.get?_of_get?_erase,
        barred.answering, barred.tries, barred.held, barred.refused, fun l hl owned => ?_, barred.told⟩
      exact ⟨(barred.looks l hl owned).1,
        fun answer h => (barred.looks l hl owned).2 answer (Entries.get?_of_get?_erase h)⟩
    exact arrived.settle hl idle follows ends

theorem step (barred : s.Barred o r f) (faithful : source.Faithful) (e : Event) :
    (s.step source e).Barred o r f := by
  cases e with
  | request errand other => exact barred.request errand other
  | giveUp call =>
    exact ⟨barred.sound.giveUp call, barred.answering, barred.tries, barred.held, barred.refused, barred.looks,
      barred.told⟩
  | consult id => exact barred.consult id
  | resume id => exact barred.resume faithful id
  | tick now =>
    exact ⟨barred.sound.step faithful (.tick now), barred.answering, barred.tries, barred.held, barred.refused,
      barred.looks, barred.told⟩

/-- The custodian stores nothing, and no random bytes are drawn, but for a load of somebody else. -/
theorem untouched (barred : s.Barred o r f) (source : KeySource) (e : Event) :
    ((s.step source e).custody.entropy = s.custody.entropy ∧
      (s.step source e).custody.custodian.stores = s.custody.custodian.stores) ∨
    ∃ l ∈ s.custody.store.loads, (e = .consult l.id ∨ e = .resume l.id) ∧ l.owner ≠ o := by
  have settled (l : KeyLoad) (next : Next) (s' : Session) :
      (s'.settle l next).custody.entropy = s'.custody.entropy ∧
        (s'.settle l next).custody.custodian = s'.custody.custodian := by
    cases next <;> exact ⟨rfl, rfl⟩
  cases e with
  | request errand other => exact .inl ⟨rfl, rfl⟩
  | giveUp call => exact .inl ⟨rfl, rfl⟩
  | tick now => exact .inl ⟨rfl, rfl⟩
  | consult id =>
    dsimp only [Session.step]
    split
    case h_2 => exact .inl ⟨rfl, rfl⟩
    case h_1 l found idle =>
      have hl := List.mem_of_find?_eq_some found
      obtain rfl : l.id = id := by simpa using List.find?_some found
      by_cases owned : l.owner = o
      · left
        split
        case isTrue =>
          have spec := consulted l.owner l.phase s.custody
          exact ⟨spec.entropy_eq, (spec.looked 0 (barred.looks l hl owned).1).1⟩
        case isFalse =>
          obtain ⟨custodian_eq, entropy_eq, -⟩ := withLabel_same l.phase s.custody
          rw [(settled l _ _).1, (settled l _ _).2, custodian_eq, entropy_eq]
          exact ⟨rfl, rfl⟩
      · exact .inr ⟨l, hl, .inl rfl, owned⟩
  | resume id =>
    dsimp only [Session.step]
    split
    case h_2 => exact .inl ⟨rfl, rfl⟩
    case h_1 l answer found pending =>
      have hl := List.mem_of_find?_eq_some found
      obtain rfl : l.id = id := by simpa using List.find?_some found
      by_cases owned : l.owner = o
      · obtain ⟨phase, arrived⟩ := barred.looks l hl owned
        rw [(settled l _ _).1, (settled l _ _).2, arrived answer pending, phase]
        exact .inl ⟨rfl, rfl⟩
      · exact .inr ⟨l, hl, .inr rfl, owned⟩

/-- The custodian answers a load of the barred owner, at once or some time ago; then all who wait for it are told. -/
theorem tells (barred : s.Barred o r f) (source : KeySource) (hl : l ∈ s.custody.store.loads) (owned : l.owner = o)
    {m : Load Owner Errand} (hm : m ∈ s.custody.store.keyCache.loads) (same : m.id = l.id) :
    ∀ call ∈ m.waiting, (call, .error f) ∈ (s.run source [.consult l.id, .resume l.id]).answers := by
  have found : s.custody.store.loads.find? (·.id = l.id) = some l :=
    Entries.find?_of_mem barred.sound.custody.orderly.ids hl
  -- After the first event the record is on its way to the load.
  obtain ⟨s', hs, loads_eq, cache_eq, arrives⟩ : ∃ s', s' = s.step source (.consult l.id) ∧
      s'.custody.store.loads = s.custody.store.loads ∧ s'.custody.store.keyCache = s.custody.store.keyCache ∧
      ∃ answer, Entries.get? s'.pending l.id = some answer := by
    refine ⟨_, rfl, ?_⟩
    dsimp only [Session.step]
    rw [found]
    cases arriving : Entries.get? s.pending l.id with
    | some answer => exact ⟨rfl, rfl, answer, arriving⟩
    | none =>
      have may : s.custody.mayTry l.phase = true := by
        rw [(barred.looks l hl owned).1]
        exact decide_eq_true barred.tries
      have spec := consulted l.owner l.phase s.custody
      dsimp only
      rw [if_pos may]
      exact ⟨spec.loads_eq, spec.cache_eq, _, Entries.get?_put_self _ _ _⟩
  have barred' : s'.Barred o r f := hs ▸ barred.consult l.id
  obtain ⟨answer, arriving⟩ := arrives
  obtain ⟨phase, record⟩ := barred'.looks l (loads_eq ▸ hl) owned
  obtain rfl := record answer arriving
  have refused : (Custody.resume source l.owner l.errand l.phase (.found (.ok (some r))) s'.custody)
      = (.finish (.error f), s'.custody) := by
    rw [phase, owned, ← barred'.refused]
    rfl
  have told : (Custody.settle l (.finish (.error f)) s'.custody).1 = m.waiting.map (·, .error f) := by
    show (s'.custody.store.keyCache.complete s'.custody.now l.id (.error f)).1 = _
    rw [cache_eq, ← same, Cache.complete_of_mem barred.sound.custody.tidy.ids hm]
  intro call waits
  have ran : s.run source [.consult l.id, .resume l.id] = s'.step source (.resume l.id) :=
    congrArg (Session.step source · (.resume l.id)) hs.symm
  rw [ran]
  dsimp only [Session.step]
  rw [loads_eq, found, arriving]
  dsimp only
  rw [refused]
  refine List.mem_append_right _ ?_
  show (call, .error f) ∈ (Custody.settle l (.finish (.error f)) s'.custody).1
  rw [told]
  exact List.mem_map_of_mem waits

end Barred

/-! ## 2. Runs -/

theorem barred_after (faithful : source.Faithful) (exact : c.entropy.Exact) {wrapper : KeyWrapper}
    {keyTtl bootstrapTtl : Float} {maxRetries : Int}
    (new : KeyStore.new wrapper keyTtl bootstrapTtl maxRetries = .ok c.store) (answering : Answering c.custodian)
    (tries : 0 ≤ c.store.policy.maxRetries) (held : c.record? o = some r)
    (refused : openRecord c.store.wrapper o r = .error f) (history : List Event) :
    (after source c history).Barred o r f := by
  -- Induction on the history, whose latest event comes first.
  induction history with
  | nil =>
    obtain ⟨-, -, loads, -⟩ := new_eq_ok new
    refine ⟨sound_after faithful exact new [], answering, tries, held, refused, ?_, fun _ h => by cases h⟩
    show ∀ l ∈ c.store.loads, _
    rw [loads]
    exact fun _ h => by cases h
  | cons e earlier ih => exact ih.step faithful e

end Session

variable {c : Custody} {o : Owner} {r : KeyRecord}

/-- Corrupted custody fails closed. One of the wrapped keys of an owner's record is not what wrapping makes for this
owner and role, and the custodian answers; the first such key decides how every call is refused. That is a failure of
the custodian if the owner's name has a UTF-8 form and the text room for a nonce, and a failure outside the taxonomy
otherwise. A call for keys that are not cached leaves randomness, custody and what is cached as they were, whether it
may create keys or not. And in every history of a key store, at most this refusal is told to those who ask for the
owner's keys, and it is told to all who wait for a load of theirs once the custodian's answer has arrived; nothing
is ever cached for the owner, the record stays, and keys are made and stored for others only. -/
theorem corrupted_custody_refused (answering : Answering c.custodian) (tries : 0 ≤ c.store.policy.maxRetries)
    (held : c.record? o = some r) (corrupt : ∃ role, ¬ Accepts c.store.wrapper o role (r.wrapped role))
    (source : KeySource) :
    ∃ role f, ¬ Accepts c.store.wrapper o role (r.wrapped role) ∧
      (role = .evaluation → Accepts c.store.wrapper o .decryption (r.wrapped .decryption)) ∧
      f = refusal o (r.wrapped role) ∧
      (f.kind = .custodian ↔ o.identity.utf8? ≠ none ∧ 8 ≤ (r.wrapped role).length) ∧
      (c.Quiet → c.cached? o = none → ∀ errand, ∃ c', ask source errand o c = (.error f, c') ∧
        c'.entropy = c.entropy ∧ c'.waits = c.waits ∧
        c'.custodian = { c.custodian with retrievals := c.custodian.retrievals + 1 } ∧
        (∀ e ∈ c'.store.keyCache.entries, e ∈ c.store.keyCache.entries) ∧
        ∀ other, c'.cached? other = c.cached? other) ∧
      (source.Faithful → c.entropy.Exact → ∀ wrapper keyTtl bootstrapTtl maxRetries,
        KeyStore.new wrapper keyTtl bootstrapTtl maxRetries = .ok c.store → ∀ history,
        let s := Session.after source c history
        (∀ call errand outcome, s.asked[call]? = some (errand, o) → (call, outcome) ∈ s.answers →
          outcome = .error f) ∧
        (∀ l ∈ s.custody.store.loads, l.owner = o → ∀ m ∈ s.custody.store.keyCache.loads, m.id = l.id →
          ∀ call ∈ m.waiting, (call, .error f) ∈ (s.run source [.consult l.id, .resume l.id]).answers) ∧
        (∀ e ∈ s.custody.store.keyCache.entries, e.1 ≠ o) ∧
        s.custody.record? o = some r ∧
        ∀ e, ((s.step source e).custody.entropy = s.custody.entropy ∧
            (s.step source e).custody.custodian.stores = s.custody.custodian.stores) ∨
          ∃ l ∈ s.custody.store.loads, (e = .consult l.id ∨ e = .resume l.id) ∧ l.owner ≠ o) := by
  obtain ⟨f, role, refused, ordered, refusal_eq⟩ := exists_refuses corrupt
  have opened : openRecord c.store.wrapper o r = .error f :=
    openRecord_eq_error_iff.2 ⟨role, refused, ordered, refusal_eq⟩
  refine ⟨role, f, refused, ordered, refusal_eq, ?_, ?_, ?_⟩
  · rw [refusal_eq]
    exact kind_refusal_iff
  · intro quiet missing errand
    refine ⟨c.afterRefusal, ask_refused quiet missing tries held opened source errand, rfl, rfl, rfl, ?_, ?_⟩
    · exact fun e he => (Cache.mem_entries_purge.1 he).1
    · exact fun other => Cache.live?_purge quiet.orderly.tidy c.now other
  · intro faithful exact wrapper keyTtl bootstrapTtl maxRetries new history
    have barred := Session.barred_after faithful exact new answering tries held opened history
    refine ⟨fun call errand outcome asked told => barred.told (call, outcome) told errand asked,
      fun l hl owned m hm same => barred.tells source hl owned hm same, barred.not_cached, barred.held,
      barred.untouched source⟩

/-! ## 3. Records of a few bytes -/

/-- A text without room for a nonce and a tag is no wrapped key. -/
theorem not_accepts_of_length {w : KeyWrapper} {role : KeyRole} {wrapped : Bytes} (short : wrapped.length < 28) :
    ¬ Accepts w o role wrapped := by
  rintro ⟨associated, nonce, key, -, length, rfl⟩
  rw [KeyWrapper.length_wrapWith, length, KeyWrapper.nonceSize] at short
  omega

/-- A new key store whose custodian holds one record. -/
def holding (r : KeyRecord) : Custody :=
  { Session.fresh with custodian := { Custodian.empty with records := [(r.owner, r)] } }

theorem new_holding (r : KeyRecord) : KeyStore.new (.ephemeral 0) 10.0 20.0 2 = .ok (holding r).store := rfl

theorem answering_holding (r : KeyRecord) : Answering (holding r).custodian := ⟨fun _ => rfl, fun _ => rfl⟩

theorem quiet_holding (r : KeyRecord) : (holding r).Quiet := quiet_new (answering_holding r) (new_holding r)

theorem record?_holding (r : KeyRecord) : (holding r).record? r.owner = some r := by
  unfold record? holding
  exact Entries.get?_put_self r.owner r []

/-- A private key as it was wrapped, and an evaluation key that was cut off within its nonce. -/
def cutOff : KeyRecord where
  owner := ⟨"0xab", .bfv⟩
  publicKey := [1, 2, 3]
  wrappedPrivateKey := (KeyWrapper.ephemeral 0).wrapWith (List.replicate 12 7) [4, 5, 6]
    (some (Utf8.ofString "0xab|bfv|private"))
  wrappedEvaluationKey := List.replicate 9 7

theorem corrupted_custody_refused_cutOff :
    let f : Failure := .field (.custodianFailed "stored key material failed authentication" "retrieve")
    ∃ s, s = Session.after .standard (holding cutOff)
        [.request .lookup cutOff.owner, .consult 0, .request .create cutOff.owner] ∧
      (∀ errand, (ask .standard errand cutOff.owner (holding cutOff)).1 = .error f) ∧
      (1, .error f) ∈ (s.run .standard [.consult 1, .resume 1]).answers ∧
      ∀ e ∈ s.custody.store.keyCache.entries, e.1 ≠ cutOff.owner := by
  intro f
  have accepted : Accepts (.ephemeral 0) cutOff.owner .decryption (cutOff.wrapped .decryption) :=
    ⟨_, List.replicate 12 7, [4, 5, 6], rfl, rfl, rfl⟩
  have corrupt : ∃ role, ¬ Accepts (holding cutOff).store.wrapper cutOff.owner role (cutOff.wrapped role) :=
    ⟨.evaluation, not_accepts_of_length (by decide)⟩
  obtain ⟨role, g, refused, -, refusal_eq, -, alone, histories⟩ := corrupted_custody_refused
    (answering_holding cutOff) (by decide) (record?_holding cutOff) corrupt .standard
  -- The private key is accepted.
  have role_eq : role = .evaluation := by
    cases role with
    | decryption => exact absurd accepted refused
    | evaluation => rfl
  have same : g = f := by
    rw [refusal_eq, role_eq]
    rfl
  rw [same] at alone histories
  have safe := histories KeySource.faithful_standard Entropy.exact_reproducible _ _ _ _ (new_holding cutOff)
    [.request .lookup cutOff.owner, .consult 0, .request .create cutOff.owner]
  obtain ⟨s, after⟩ : ∃ s, s = Session.after .standard (holding cutOff)
      [.request .lookup cutOff.owner, .consult 0, .request .create cutOff.owner] := ⟨_, rfl⟩
  have second : ⟨1, cutOff.owner, .lookup, .lookingUp 0⟩ ∈ s.custody.store.loads := by
    rw [after]
    exact List.mem_cons_of_mem _ (List.mem_singleton_self _)
  have waits : ⟨1, cutOff.owner, .lookup, [1]⟩ ∈ s.custody.store.keyCache.loads := by
    rw [after]
    exact List.mem_cons_of_mem _ (List.mem_singleton_self _)
  rw [← after] at safe
  obtain ⟨-, tells, uncached, -⟩ := safe
  refine ⟨s, after, fun errand => ?_, ?_, uncached⟩
  · obtain ⟨c', asked, -⟩ := alone (quiet_holding cutOff) rfl errand
    rw [asked]
  · exact tells _ second rfl _ waits rfl 1 (List.mem_singleton_self 1)

/-- A record whose texts are empty, and one that was copied to a name which is half of a surrogate pair: neither
opens, and neither call fails with a failure of the custodian. -/
theorem corrupted_custody_escapes :
    let empty : KeyRecord := ⟨⟨"0xab", .bfv⟩, [1, 2, 3], [], []⟩
    let copied : KeyRecord := { cutOff with owner := ⟨[.surrogate 0], .bfv⟩ }
    ¬ Accepts (holding empty).store.wrapper empty.owner .decryption (empty.wrapped .decryption) ∧
      ¬ Accepts (holding copied).store.wrapper copied.owner .decryption (copied.wrapped .decryption) ∧
      (∀ errand, (ask .standard errand empty.owner (holding empty)).1 = .error .badValue) ∧
      (∀ errand, (ask .standard errand copied.owner (holding copied)).1 = .error .unencodable) ∧
      Failure.badValue.kind ≠ .custodian ∧ Failure.unencodable.kind ≠ .custodian := by
  intro empty copied
  have first : ¬ Accepts (holding empty).store.wrapper empty.owner .decryption (empty.wrapped .decryption) :=
    not_accepts_of_length (by decide)
  have second : ¬ Accepts (holding copied).store.wrapper copied.owner .decryption (copied.wrapped .decryption) := by
    rintro ⟨_, _, _, bound, -⟩
    cases bound
  have asked {r : KeyRecord} {f : Failure} (missing : (holding r).cached? r.owner = none)
      (refused : Refuses (holding r).store.wrapper r.owner r f) (errand : Errand) :
      (ask .standard errand r.owner (holding r)).1 = .error f := by
    rw [ask_refused (quiet_holding r) missing (Int.natCast_nonneg 2) (record?_holding r)
      (openRecord_eq_error_iff.2 refused) .standard errand]
  refine ⟨first, second, asked rfl ⟨.decryption, first, (fun h => by cases h), rfl⟩,
    asked rfl ⟨.decryption, second, (fun h => by cases h), rfl⟩, by decide, by decide⟩

end SealedFields.Custody
