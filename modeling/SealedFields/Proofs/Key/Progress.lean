import SealedFields.Proofs.Key.Custody

/-!
# How a load goes on

An answer of the custodian leads a load to another call, to keys in custody or to a failure, and what that
step leaves behind keeps the invariant.
-/

namespace SealedFields.Custody

variable {c : Custody} {l m : KeyLoad} {answer : CustodianAnswer}

/-! ## 1. Going on with an answer -/

/-- What a load comes to: keys to store that are sealed, keys in custody, or a failure that says no keys
are missing to one who may create them. -/
def Follows (c : Custody) (l : KeyLoad) : Next → Prop
  | .go phase | .wait _ phase => c.PhaseSound l.owner l.errand phase
  | .finish (.ok keys) => c.Serves l.owner keys
  | .finish (.error f) => l.errand = .create → ¬ f.IsKeyMissing

theorem not_isKeyMissing_persistFailure {scheme : Scheme} {f : Failure} (h : ¬ f.IsKeyMissing) :
    ¬ (Phase.persistFailure scheme f).IsKeyMissing := by
  unfold Phase.persistFailure
  split
  case h_1 =>
    rintro ⟨_, _, _, he⟩
    cases he
  case h_2 => exact h

theorem failure_rawDelay {p : Retry.Config} {label : Text} {attempt : Int} {f : Failure}
    (h : p.rawDelay label attempt = .error f) : ¬ f.IsKeyMissing := by
  -- The delays that are computed may overflow, which is a failure of its own.
  have power {x : Float} {f : Failure} (h : Retry.power x attempt = .error f) : ¬ f.IsKeyMissing := by
    unfold Retry.power at h
    split at h
    case h_1 => cases h
    all_goals
      obtain rfl := Except.error.inj h
      exact Failure.not_isKeyMissing_raised
  have jitter {f : Failure} (h : Retry.jitterUnit label attempt = .error f) : ¬ f.IsKeyMissing := by
    unfold Retry.jitterUnit at h
    split at h
    case h_1 =>
      obtain rfl := Except.error.inj h
      exact Failure.not_isKeyMissing_raised
    case h_2 => cases h
  have spread {grown : Float} {f : Failure} (h : p.spread label attempt grown = .error f) : ¬ f.IsKeyMissing := by
    unfold Retry.Config.spread at h
    split at h
    case h_1 =>
      rcases Outcome.bind_eq_error_iff.1 h with h | ⟨_, -, h⟩
      · exact jitter h
      · cases h
    case h_2 => cases h
  unfold Retry.Config.rawDelay at h
  split at h
  case h_1 | h_2 => cases h
  case h_3 =>
    split at h
    case h_1 => cases h
    case h_2 =>
      obtain rfl := Except.error.inj h
      exact Failure.not_isKeyMissing_raised
  case h_4 =>
    rcases Outcome.bind_eq_error_iff.1 h with h | ⟨_, -, h⟩
    · exact power h
    · cases h
  case h_5 =>
    rcases Outcome.bind_eq_error_iff.1 h with h | ⟨_, -, h⟩
    · exact power h
    rcases Outcome.bind_eq_error_iff.1 h with h | ⟨_, -, h⟩
    · exact spread h
    · cases h

theorem failure_delay {p : Retry.Config} {label : Text} {attempt : Int} {f : Failure}
    (h : p.delay label attempt = .error f) : ¬ f.IsKeyMissing := by
  unfold Retry.Config.delay at h
  rcases Outcome.bind_eq_error_iff.1 h with h | ⟨_, -, h⟩
  · exact failure_rawDelay h
  · cases h

theorem failure_numeral {i : Int} {f : Failure} (h : Retry.numeral i = .error f) : ¬ f.IsKeyMissing := by
  unfold Retry.numeral at h
  split at h
  case h_1 => cases h
  case h_2 =>
    obtain rfl := Except.error.inj h
    rintro ⟨_, _, _, h⟩
    cases h

/-- A retry may lack a delay or a notice, but not keys. -/
theorem failure_announced {p : Retry.Config} {label : Text} {attempt : Nat} {f g : Failure}
    (h : p.announced label attempt f = .error g) : ¬ g.IsKeyMissing := by
  unfold Retry.Config.announced Retry.Config.notice at h
  rcases Outcome.bind_eq_error_iff.1 h with h | ⟨delay, -, h⟩
  · exact failure_delay h
  rcases Outcome.bind_eq_error_iff.1 h with h | ⟨_, -, h⟩
  · rcases Outcome.bind_eq_error_iff.1 h with h | ⟨_, -, h⟩
    · exact failure_numeral h
    rcases Outcome.bind_eq_error_iff.1 h with h | ⟨_, -, h⟩
    · exact failure_numeral h
    rcases Outcome.bind_eq_error_iff.1 h with h | ⟨_, -, h⟩
    · exact Failure.not_isKeyMissing_of_told h
    · cases h
  · cases h

theorem failure_lastNotice {p : Retry.Config} {label : Text} {g : Failure} (h : p.lastNotice label = .error g) :
    ¬ g.IsKeyMissing := by
  unfold Retry.Config.lastNotice at h
  rcases Outcome.bind_eq_error_iff.1 h with h | ⟨_, -, h⟩
  · exact failure_numeral h
  · cases h

theorem failure_verdict {p : Retry.Config} {label : Text} {attempt : Nat} {f g : Failure}
    (h : p.verdict label attempt f = .giveUp g) (hf : ¬ f.IsKeyMissing) : ¬ g.IsKeyMissing := by
  unfold Retry.Config.verdict at h
  split at h
  case isTrue =>
    obtain rfl := Retry.Verdict.giveUp.inj h
    exact hf
  case isFalse =>
    split at h
    case isTrue =>
      -- After the last retry the work's own failure is final, if that can be told.
      split at h <;> obtain rfl := Retry.Verdict.giveUp.inj h
      case h_1 => exact hf
      case h_2 hg => exact failure_lastNotice hg
    case isFalse =>
      split at h
      case h_1 => cases h
      case h_2 g' hg =>
        obtain rfl := Retry.Verdict.giveUp.inj h
        exact failure_announced hg

theorem follows_afterFailure {f : Failure} (phase : c.PhaseSound l.owner l.errand l.phase)
    (hf : ¬ f.IsKeyMissing) : c.Follows l (afterFailure c.store l.owner.scheme l.phase f) := by
  -- The retry policy gives up with a failure, or has the same call made again.
  unfold afterFailure
  split
  case h_1 g hg =>
    intro _
    have plain := failure_verdict hg hf
    cases hp : l.phase with
    | lookingUp => exact plain
    | storing => exact not_isKeyMissing_persistFailure plain
  case h_2 delay _ =>
    cases hp : l.phase with
    | lookingUp n =>
      intro _ _ _ h
      cases h
    | storing n keys r =>
      rintro n' keys' r' h
      obtain ⟨-, rfl, rfl⟩ := Phase.storing.inj h
      exact phase n keys r hp

theorem follows_makeKeys {source : KeySource} (faithful : source.Faithful) (sound : c.Sound)
    (create : l.errand = .create) (free : c.record? l.owner = none) :
    c.Follows l (makeKeys source l.owner c).1 := by
  unfold makeKeys
  split
  case h_1 f entropy hg => exact fun _ => faithful.failure_of_generate hg
  case h_2 keys entropy hg =>
    -- Making keys has drawn from the source, but not changed it.
    have exact : entropy.Exact := by
      intro k n
      have same := source.source_generate l.owner.scheme c.entropy
      rw [hg] at same
      rw [same]
      exact sound.exact k n
    split
    case h_1 f entropy hr => exact fun _ => failure_closeRecord hr
    case h_2 r entropy hr =>
      intro n keys' r' h
      obtain ⟨-, rfl, rfl⟩ := Phase.storing.inj h
      refine ⟨create, seals_closeRecord exact (faithful.scheme_of_generate hg) hr, fun r' hr' => ?_⟩
      rw [free] at hr'
      cases hr'

theorem follows_resume {source : KeySource} (faithful : source.Faithful) (sound : c.Sound)
    (hl : l ∈ c.store.loads) (answered : c.Answered l answer) :
    c.Follows l (resume source l.owner l.errand l.phase answer c).1 := by
  have phase := sound.phases l hl
  have failed {f : Failure} (hf : ¬ f.IsKeyMissing) :
      c.Follows l (afterFailure c.store l.owner.scheme l.phase f) := follows_afterFailure phase hf
  -- The cases are those of an answer: a record, no record, a stored record, a failure.
  unfold resume
  split
  case h_1 _ r hp =>
    obtain ⟨held, tries⟩ : c.record? l.owner = some r ∧ 0 ≤ c.store.policy.maxRetries := answered
    cases opens : openRecord c.store.wrapper l.owner r with
    | ok keys => exact ⟨⟨r, held, opens⟩, tries⟩
    | error f => exact fun _ => failure_openRecord opens
  case h_2 n hp =>
    cases create : l.errand with
    | lookup =>
      intro he
      rw [create] at he
      cases he
    | create => exact follows_makeKeys faithful sound create (answered n hp create)
  case h_3 n keys r _ hp =>
    obtain ⟨held, tries⟩ := answered
    exact ⟨⟨r, held n keys r hp, (phase n keys r hp).2.1.opens⟩, tries⟩
  case h_4 f => exact failed answered
  case h_5 f => exact failed answered
  case h_6 => exact phase

/-- Going on draws random bytes at most. -/
theorem resume_eq (source : KeySource) (o : Owner) (errand : Errand) (phase : Phase)
    (answer : CustodianAnswer) (c : Custody) :
    ∃ entropy, (resume source o errand phase answer c).2 = { c with entropy } ∧
      entropy.source = c.entropy.source := by
  have idle : ∃ entropy, c = { c with entropy } ∧ entropy.source = c.entropy.source := ⟨_, rfl, rfl⟩
  unfold resume
  split
  case h_2 =>
    cases errand with
    | lookup => exact idle
    | create =>
      dsimp only [makeKeys]
      have generated := source.source_generate o.scheme c.entropy
      split
      case h_1 entropy hg =>
        rw [hg] at generated
        exact ⟨entropy, rfl, generated⟩
      case h_2 keys entropy hg =>
        rw [hg] at generated
        have closed := source_closeRecord c.store.wrapper o keys entropy
        split
        all_goals
          rename_i hr
          rw [hr] at closed
          exact ⟨_, rfl, closed.trans generated⟩
  all_goals exact idle

theorem grows_resume (source : KeySource) (o : Owner) (errand : Errand) (phase : Phase)
    (answer : CustodianAnswer) (c : Custody) : Grows c (resume source o errand phase answer c).2 := by
  obtain ⟨entropy, same, -⟩ := resume_eq source o errand phase answer c
  rw [same]
  exact ⟨rfl, rfl, id⟩

theorem Sound.resume (sound : c.Sound) (source : KeySource) (o : Owner) (errand : Errand) (phase : Phase)
    (answer : CustodianAnswer) : (resume source o errand phase answer c).2.Sound := by
  obtain ⟨entropy, same, source_eq⟩ := resume_eq source o errand phase answer c
  rw [same]
  exact sound.of_grows ⟨rfl, rfl, id⟩ source_eq rfl rfl sound.phases

/-! ## 2. What a step leaves behind -/

theorem grows_settle (l : KeyLoad) (next : Next) (c : Custody) : Grows c (settle l next c).2 := by
  cases next <;> exact ⟨rfl, rfl, id⟩

theorem custodian_settle (l : KeyLoad) (next : Next) (c : Custody) :
    (settle l next c).2.custodian = c.custodian := by
  cases next <;> rfl

theorem mem_loads_settle {next : Next} (hm : m ∈ c.store.loads) (other : m.id ≠ l.id) :
    m ∈ (settle l next c).2.store.loads := by
  have kept (phase : Phase) : m ∈ c.inPhase l phase := by
    refine List.mem_map.2 ⟨m, hm, ?_⟩
    rw [if_neg other]
  cases next with
  | go phase => exact kept phase
  | wait delay phase => exact kept phase
  | finish result => exact List.mem_filter.2 ⟨hm, by simpa using other⟩

theorem exists_of_mem_settle {next : Next} (hm : m ∈ (settle l next c).2.store.loads) :
    ∃ m' ∈ c.store.loads, m'.errand = m.errand ∧ m'.owner = m.owner := by
  have kept (phase : Phase) (h : m ∈ c.inPhase l phase) :
      ∃ m' ∈ c.store.loads, m'.errand = m.errand ∧ m'.owner = m.owner := by
    obtain ⟨m', hm', rfl⟩ := List.mem_map.1 h
    refine ⟨m', hm', ?_⟩
    split <;> exact ⟨rfl, rfl⟩
  cases next with
  | go phase => exact kept phase hm
  | wait delay phase => exact kept phase hm
  | finish result => exact ⟨m, (List.mem_filter.1 hm).1, rfl, rfl⟩

theorem mem_cached_of_settle {next : Next} {k : Load Owner Errand}
    (hk : k ∈ (settle l next c).2.store.keyCache.loads) : k ∈ c.store.keyCache.loads := by
  cases next with
  | go => exact hk
  | wait => exact hk
  | finish result =>
    have hk : k ∈ (c.store.keyCache.complete c.now l.id (result.map some)).2.loads := hk
    unfold Cache.complete at hk
    split at hk
    case h_1 => exact hk
    case h_2 => exact (List.mem_filter.1 hk).1

/-- Callers are told what they waited for: they learn how the load of their owner and errand ended. -/
theorem told_settle (sound : c.Sound) (hl : l ∈ c.store.loads) {next : Next} {call : Nat}
    {outcome : Cache.Outcome KeyPair} (h : (call, outcome) ∈ (settle l next c).1) :
    ∃ result, next = .finish result ∧ outcome = result.map some ∧
      ∃ m ∈ c.store.keyCache.loads, m.key = l.owner ∧ m.flight = l.errand ∧ call ∈ m.waiting := by
  -- Only a load that ends tells its callers anything.
  cases next with
  | go => exact absurd h List.not_mem_nil
  | wait => exact absurd h List.not_mem_nil
  | finish result =>
    obtain ⟨m, hm, id_eq, key_eq, flight_eq⟩ := sound.orderly.exists_cached hl
    have told : (settle l (.finish result) c).1 = m.waiting.map (·, result.map some) := by
      show (c.store.keyCache.complete c.now l.id (result.map some)).1 = _
      rw [← id_eq, Cache.complete_of_mem sound.tidy.ids hm]
    rw [told, List.mem_map] at h
    obtain ⟨call', waits, he⟩ := h
    obtain ⟨rfl, rfl⟩ := Prod.mk.inj he
    exact ⟨result, rfl, rfl, m, hm, key_eq, flight_eq, waits⟩

theorem mem_inPhase (sound : c.Sound) (hl : l ∈ c.store.loads) {phase : Phase}
    (hm : m ∈ c.inPhase l phase) : m = { l with phase } ∨ m ∈ c.store.loads ∧ m ≠ l := by
  obtain ⟨k, hk, rfl⟩ := List.mem_map.1 hm
  by_cases same : k.id = l.id
  · rw [if_pos same, sound.load_ext hk hl same]
    exact .inl rfl
  · rw [if_neg same]
    exact .inr ⟨hk, fun he => same (he ▸ rfl)⟩

theorem Sound.inPhase (sound : c.Sound) (hl : l ∈ c.store.loads) {phase : Phase}
    (follows : c.PhaseSound l.owner l.errand phase) (waits : List Float) :
    Sound { c with store := { c.store with loads := c.inPhase l phase }, waits } := by
  refine ⟨sound.exact, sound.opened, sound.tidy, (sound.orderly.inPhase l phase waits).mirrored, sound.entries, ?_⟩
  intro m hm
  rcases mem_inPhase sound hl hm with rfl | ⟨hm, -⟩
  · exact follows
  · exact sound.phases m hm

theorem Sound.settle (sound : c.Sound) (hl : l ∈ c.store.loads) {next : Next}
    (follows : c.Follows l next) : (settle l next c).2.Sound := by
  cases next with
  | go phase => exact sound.inPhase hl follows c.waits
  | wait delay phase => exact sound.inPhase hl follows _
  | finish result =>
    obtain ⟨m, hm, id_eq, key_eq, flight_eq⟩ := sound.orderly.exists_cached hl
    have completed := Cache.complete_of_mem sound.tidy.ids hm c.now (result.map some)
    rw [id_eq] at completed
    obtain ⟨opened, tidy, mirrored⟩ := sound.orderly.settle l (.finish result)
    refine ⟨sound.exact, opened, tidy, mirrored, ?_, ?_⟩
    · show ∀ e ∈ (c.store.keyCache.complete c.now l.id _).2.entries, _
      rw [completed]
      cases result with
      | error f => exact sound.entries
      | ok keys =>
        intro e he
        -- The new entry holds keys that are in custody.
        rcases Entries.mem_put sound.tidy.keys he with rfl | ⟨-, he⟩
        · exact ⟨keys, rfl, key_eq ▸ follows⟩
        · exact sound.entries e he
    · intro k hk
      exact sound.phases k (List.mem_filter.1 hk).1

/-- A load that is allowed no attempt ends without one. -/
theorem Sound.withLabel (sound : c.Sound) (phase : Phase) : (c.withLabel phase).Sound := by
  unfold Custody.withLabel
  split
  case isTrue => exact sound.of_grows ⟨rfl, rfl, id⟩ rfl rfl rfl sound.phases
  case isFalse => exact sound

end SealedFields.Custody
