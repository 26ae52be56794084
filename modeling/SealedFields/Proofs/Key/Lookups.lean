import SealedFields.Proofs.Key.Answering

/-!
# Lookups made at the same time

A lookup of an owner's keys is told what was cached and in custody when it was made, alone or among others:
no lookup changes what another one is told, however their loads are shared.
-/

namespace SealedFields.Custody

variable {c c' c'' c₀ : Custody} {source : KeySource} {l : KeyLoad} {o : Owner} {keys : KeyPair}
  {owners : List Owner}

/-! ## 1. What a lookup is told -/

/-- The keys of an owner in custody, or why there are none. -/
def looked (c : Custody) (o : Owner) : Except Failure KeyPair :=
  if c.store.policy.maxRetries < 0 then .error .noAttempt
  else match c.record? o with
    | some r => openRecord c.store.wrapper o r
    | none => .error (.field (.keyNotFound o.identity (some o.scheme.tag) "key_pair"))

def cached? (c : Custody) (o : Owner) : Option KeyPair := c.store.keyCache.live? c.now o

/-- The keys that are cached, or what custody comes to. -/
def answer (c : Custody) (o : Owner) : Except Failure KeyPair :=
  match c.cached? o with
  | some keys => .ok keys
  | none => c.looked o

theorem answer_of_cached (h : c.cached? o = some keys) : c.answer o = .ok keys := by
  unfold answer
  rw [h]

theorem answer_of_missing (h : c.cached? o = none) : c.answer o = c.looked o := by
  unfold answer
  rw [h]

/-- The load of a lookup ends with its first step. -/
theorem step_lookup (answering : Answering c.custodian) (source : KeySource) (o : Owner) :
    ∃ custodian, custodian.records = c.custodian.records ∧ Answering custodian ∧
      step source o .lookup (.lookingUp 0) c = (.finish (c.looked o),
        { c with store := { c.store with label := "retrieve_keys" }, custodian }) := by
  unfold step
  split
  case isTrue may =>
    have tries : ¬ c.store.policy.maxRetries < 0 := Int.not_lt.2 (of_decide_eq_true may)
    have answer := answer_lookingUp answering o 0
    refine ⟨(c.custodian.retrieve o).2, Custodian.records_retrieve o _, answering.consult o (.lookingUp 0), ?_⟩
    dsimp only
    rw [answer]
    unfold looked
    rw [if_neg tries]
    cases c.record? o <;> rfl
  case isFalse may =>
    have tries : c.store.policy.maxRetries < 0 := by
      have none := of_decide_eq_false (Bool.eq_false_iff.2 may)
      exact Int.not_le.1 none
    refine ⟨c.custodian, rfl, answering, ?_⟩
    unfold looked
    rw [if_pos tries]
    rfl

/-! ## 2. Lookups that are under way -/

/-- Since `c₀` there have been lookups only. What they looked for was not cached, and what they have found
is what custody comes to. -/
structure Looks (c₀ c : Custody) : Prop where
  orderly : c.Orderly
  answering : Answering c.custodian
  now_eq : c.now = c₀.now
  wrapper_eq : c.store.wrapper = c₀.store.wrapper
  policy_eq : c.store.policy = c₀.store.policy
  records_eq : c.custodian.records = c₀.custodian.records
  lookups : ∀ l ∈ c.store.loads, l.errand = .lookup ∧ l.phase = .lookingUp 0 ∧ c₀.cached? l.owner = none
  found : ∀ o, c.cached? o = c₀.cached? o ∨
    c₀.cached? o = none ∧ ∃ keys, c.cached? o = some keys ∧ c₀.looked o = .ok keys

theorem Quiet.looks (quiet : c.Quiet) : Looks c c where
  orderly := quiet.orderly
  answering := quiet.answering
  now_eq := rfl
  wrapper_eq := rfl
  policy_eq := rfl
  records_eq := rfl
  lookups := by
    rw [quiet.idle.loads]
    exact fun l hl => absurd hl List.not_mem_nil
  found _ := .inl rfl

namespace Looks

theorem looked_eq (looks : Looks c₀ c) (o : Owner) : c.looked o = c₀.looked o := by
  unfold looked record?
  rw [looks.policy_eq, looks.records_eq, looks.wrapper_eq]

theorem missing (looks : Looks c₀ c) (h : c.cached? o = none) : c₀.cached? o = none := by
  rcases looks.found o with same | ⟨none, -⟩
  · exact same.symm.trans h
  · exact none

/-- Lookups do not change what a lookup is told. -/
theorem answer_eq (looks : Looks c₀ c) (o : Owner) : c.answer o = c₀.answer o := by
  rcases looks.found o with same | ⟨none, keys, cached, found⟩
  · unfold answer
    rw [same, looks.looked_eq]
  · rw [answer_of_cached cached, answer_of_missing none, found]

theorem request (looks : Looks c₀ c) (o : Owner) (caller : Nat) :
    Looks c₀ (c.request .lookup o caller).2 := by
  have spec := Cache.request_spec c.now o .lookup caller c.store.keyCache
  refine ⟨looks.orderly.request .lookup o caller, looks.answering, looks.now_eq, looks.wrapper_eq,
    looks.policy_eq, looks.records_eq, fun l hl => ?_, fun other => ?_⟩
  · obtain ⟨more, loads, new⟩ := loads_request .lookup o caller c
    rw [loads] at hl
    rcases List.mem_append.1 hl with hl | hl
    · exact looks.lookups l hl
    · -- A load is started only for keys that are not cached.
      obtain ⟨errand_eq, rfl, started, phase_eq⟩ := new l hl
      exact ⟨errand_eq, phase_eq,
        looks.missing (Cache.live?_of_waits looks.orderly.tidy looks.orderly.opened started)⟩
  · have kept : (c.request .lookup o caller).2.cached? other = c.cached? other :=
      spec.live?_eq looks.orderly.tidy other
    rw [kept]
    exact looks.found other

end Looks

/-! ## 3. Callers that wait are told -/

/-- A call that waits for a load. -/
def Waiting (c : Custody) (call : Nat) : Prop := ∃ m ∈ c.store.keyCache.loads, call ∈ m.waiting

/-- Who waits for a load asked for the keys of its owner; `owners` are those that the calls asked for. -/
def Waits (owners : List Owner) (c : Custody) : Prop :=
  ∀ m ∈ c.store.keyCache.loads, ∀ call ∈ m.waiting, owners[call]? = some m.key

/-- Loads have ended between two states: whoever waited waits on or was told what custody comes to. -/
structure Ended (owners : List Owner) (c₀ c : Custody) (told : Told) (c' : Custody) : Prop where
  looks : Looks c₀ c'
  waits : Waits owners c'
  right : ∀ p ∈ told, ∃ o, owners[p.1]? = some o ∧ p.2 = (c₀.looked o).map some
  covers : ∀ call, c.Waiting call → c'.Waiting call ∨ ∃ outcome, (call, outcome) ∈ told

theorem Ended.refl (looks : Looks c₀ c) (waits : Waits owners c) : Ended owners c₀ c [] c :=
  ⟨looks, waits, fun _ hp => absurd hp List.not_mem_nil, fun _ h => .inl h⟩

theorem Ended.trans {told more : Told} (first : Ended owners c₀ c told c')
    (second : Ended owners c₀ c' more c'') : Ended owners c₀ c (told ++ more) c'' where
  looks := second.looks
  waits := second.waits
  right p hp := by
    rcases List.mem_append.1 hp with hp | hp
    · exact first.right p hp
    · exact second.right p hp
  covers call h := by
    rcases first.covers call h with h | ⟨outcome, h⟩
    · rcases second.covers call h with h | ⟨outcome, h⟩
      · exact .inl h
      · exact .inr ⟨outcome, List.mem_append_right _ h⟩
    · exact .inr ⟨outcome, List.mem_append_left _ h⟩

theorem Looks.advance (looks : Looks c₀ c) (waits : Waits owners c) (source : KeySource)
    (hl : l ∈ c.store.loads) : Ended owners c₀ c (advance source l c).1 (advance source l c).2 := by
  obtain ⟨id, owner, errand, phase⟩ := l
  obtain ⟨rfl, rfl, missing⟩ := looks.lookups _ hl
  obtain ⟨m, hm, rfl, rfl, -⟩ := looks.orderly.exists_cached hl
  obtain ⟨custodian, records, answering, stepped⟩ := step_lookup looks.answering source m.key
  have completed := Cache.complete_of_mem looks.orderly.tidy.ids hm c.now ((c.looked m.key).map some)
  have orderly := looks.orderly.advance source ⟨m.id, m.key, .lookup, .lookingUp 0⟩
  have ended : advance source ⟨m.id, m.key, .lookup, .lookingUp 0⟩ c
      = settle ⟨m.id, m.key, .lookup, .lookingUp 0⟩ (.finish (c.looked m.key))
        { c with store := { c.store with label := "retrieve_keys" }, custodian } := by
    unfold Custody.advance
    rw [stepped]
  rw [ended] at orderly ⊢
  have told : (settle ⟨m.id, m.key, .lookup, .lookingUp 0⟩ (.finish (c.looked m.key))
      { c with store := { c.store with label := "retrieve_keys" }, custodian }).1
        = m.waiting.map (·, (c.looked m.key).map some) := congrArg Prod.fst completed
  have left : (c.store.keyCache.complete c.now m.id ((c.looked m.key).map some)).2.loads
      = c.store.keyCache.loads.filter (·.id ≠ m.id) := Cache.loads_complete _ _ _ _
  refine ⟨⟨orderly, answering, looks.now_eq, looks.wrapper_eq, looks.policy_eq,
    records.trans looks.records_eq, fun l hl => ?_, fun other => ?_⟩, fun k hk call hc => ?_,
    fun p hp => ?_, fun call h => ?_⟩
  · exact looks.lookups l (List.mem_filter.1 hl).1
  · -- What the load has found is cached now, or has expired already.
    have kept := Cache.live?_complete looks.orderly.tidy hm c.now ((c.looked m.key).map some) other
    show (c.store.keyCache.complete c.now m.id _).2.live? c.now other = _ ∨ _ ∧ ∃ keys,
      (c.store.keyCache.complete c.now m.id _).2.live? c.now other = _ ∧ _
    rcases kept with same | ⟨rfl, gone | ⟨v, outcome, there⟩⟩
    · rw [same]
      exact looks.found other
    · rw [gone]
      exact .inl missing.symm
    · obtain ⟨keys, found, rfl⟩ := Outcome.map_eq_ok_iff.1 outcome
      exact .inr ⟨missing, keys, there, (looks.looked_eq _).symm.trans found⟩
  · have hk : k ∈ (c.store.keyCache.complete c.now m.id ((c.looked m.key).map some)).2.loads := hk
    rw [left] at hk
    exact waits k (List.mem_filter.1 hk).1 call hc
  · rw [told] at hp
    obtain ⟨call, hc, rfl⟩ := List.mem_map.1 hp
    exact ⟨m.key, waits m hm call hc, by rw [looks.looked_eq]⟩
  · obtain ⟨k, hk, hc⟩ := h
    by_cases same : k.id = m.id
    · -- This load has ended, and its callers are told.
      obtain rfl := looks.orderly.tidy.load_ext hk hm same
      refine .inr ⟨(c.looked k.key).map some, ?_⟩
      rw [told]
      exact List.mem_map_of_mem hc
    · refine .inl ⟨k, ?_, hc⟩
      show k ∈ (c.store.keyCache.complete c.now m.id ((c.looked m.key).map some)).2.loads
      rw [left]
      exact List.mem_filter.2 ⟨hk, by simpa using same⟩

theorem Looks.finish (looks : Looks c₀ c) (waits : Waits owners c) (source : KeySource) (id steps : Nat) :
    Ended owners c₀ c (finish source id steps c).1 (finish source id steps c).2 := by
  induction steps generalizing c with
  | zero => exact .refl looks waits
  | succ steps ih =>
    rw [Custody.finish]
    split
    case h_1 => exact .refl looks waits
    case h_2 l found =>
      have first := looks.advance waits source (List.mem_of_find?_eq_some found)
      exact first.trans (ih first.looks first.waits)

theorem Looks.finishAll (looks : Looks c₀ c) (waits : Waits owners c) (source : KeySource) (ids : List Nat) :
    Ended owners c₀ c (finishAll source ids c).1 (finishAll source ids c).2 := by
  induction ids generalizing c with
  | nil => exact .refl looks waits
  | cons id ids ih =>
    have first := looks.finish waits source id c.maxSteps
    exact first.trans (ih first.looks first.waits)

/-! ## 4. Calls that are made -/

/-- What a call for an owner's keys is told at once: keys that it may be told, or that it waits. -/
def Heard (c₀ c : Custody) (o : Owner) (call : Nat) : Cache.Reply KeyPair → Prop
  | .refused _ => False
  | .hit keys => c₀.answer o = .ok keys
  | .waits .. => c₀.cached? o = none ∧ c.Waiting call

theorem Looks.heard (looks : Looks c₀ c) (o : Owner) (caller : Nat) :
    Heard c₀ (c.request .lookup o caller).2 o caller (c.request .lookup o caller).1 := by
  have spec := Cache.request_spec c.now o .lookup caller c.store.keyCache
  cases reply : (c.request .lookup o caller).1 with
  | refused f =>
    have reply : (c.store.keyCache.request c.now o .lookup caller).1 = .refused f := reply
    rw [reply] at spec
    generalize (c.store.keyCache.request c.now o .lookup caller).2 = keyCache at spec
    cases spec with
    | refused closed =>
      rw [looks.orderly.opened] at closed
      cases closed
  | hit keys =>
    have reply : (c.store.keyCache.request c.now o .lookup caller).1 = .hit keys := reply
    rw [reply] at spec
    have cached : c.cached? o = some keys := spec.live?_of_hit looks.orderly.tidy
    exact (looks.answer_eq o).symm.trans (answer_of_cached cached)
  | waits id starts =>
    have reply : (c.store.keyCache.request c.now o .lookup caller).1 = .waits id starts := reply
    have none : c.cached? o = none := Cache.live?_of_waits looks.orderly.tidy looks.orderly.opened reply
    refine ⟨looks.missing none, ?_⟩
    show ∃ m ∈ (c.store.keyCache.request c.now o .lookup caller).2.loads, caller ∈ m.waiting
    rw [reply] at spec
    generalize (c.store.keyCache.request c.now o .lookup caller).2 = keyCache at spec ⊢
    cases spec with
    | @joins l _ hl =>
      refine ⟨l.joinedBy l.id caller, List.mem_map_of_mem hl, ?_⟩
      unfold Load.joinedBy
      rw [if_pos rfl]
      exact List.mem_append_right _ (List.mem_singleton_self caller)
    | starts => exact ⟨_, List.mem_append_right _ (List.mem_singleton_self _), List.mem_singleton_self caller⟩

/-- Whoever waits goes on waiting when somebody else calls. -/
theorem Waiting.request {call : Nat} (h : c.Waiting call) (errand : Errand) (o : Owner) (caller : Nat) :
    (c.request errand o caller).2.Waiting call := by
  obtain ⟨m, hm, hc⟩ := h
  have spec := Cache.request_spec c.now o errand caller c.store.keyCache
  show ∃ m ∈ (c.store.keyCache.request c.now o errand caller).2.loads, call ∈ m.waiting
  generalize (c.store.keyCache.request c.now o errand caller).1 = reply at spec
  generalize (c.store.keyCache.request c.now o errand caller).2 = keyCache at spec ⊢
  cases spec with
  | refused => exact ⟨m, hm, hc⟩
  | hit => exact ⟨m, hm, hc⟩
  | @joins l =>
    refine ⟨m.joinedBy l.id caller, List.mem_map_of_mem hm, ?_⟩
    unfold Load.joinedBy
    split
    case isTrue => exact List.mem_append_left _ hc
    case isFalse => exact hc
  | starts => exact ⟨m, List.mem_append_left _ hm, hc⟩

theorem Waits.request (waits : Waits owners c) (orderly : c.Orderly) {caller : Nat}
    (asked : owners[caller]? = some o) : Waits owners (c.request .lookup o caller).2 := by
  intro m hm call hc
  rcases waiting_request orderly .lookup o caller m hm call hc with ⟨rfl, -, rfl⟩ | ⟨m', hm', hc, -, key_eq⟩
  · exact asked
  · rw [← key_eq]
    exact waits m' hm' call hc

theorem Heard.mono {call : Nat} {reply : Cache.Reply KeyPair} (heard : Heard c₀ c o call reply)
    (kept : c.Waiting call → c'.Waiting call) : Heard c₀ c' o call reply := by
  cases reply with
  | refused f => exact heard
  | hit keys => exact heard
  | waits id starts => exact ⟨heard.1, kept heard.2⟩

/-- The calls of a list of owners, numbered from `caller` on. -/
theorem Looks.requestAll {asked : List Owner} {caller : Nat} (looks : Looks c₀ c) (waits : Waits owners c)
    (numbered : ∀ i o, asked[i]? = some o → owners[caller + i]? = some o) :
    Looks c₀ (requestAll caller (asked.map (.lookup, ·)) c).2 ∧
      Waits owners (requestAll caller (asked.map (.lookup, ·)) c).2 ∧
      (∀ call, c.Waiting call → (requestAll caller (asked.map (.lookup, ·)) c).2.Waiting call) ∧
      (requestAll caller (asked.map (.lookup, ·)) c).1.length = asked.length ∧
      ∀ i o reply, asked[i]? = some o → (requestAll caller (asked.map (.lookup, ·)) c).1[i]? = some reply →
        Heard c₀ (requestAll caller (asked.map (.lookup, ·)) c).2 o (caller + i) reply := by
  -- Induction on the calls; those that wait go on waiting while the later ones are made.
  induction asked generalizing caller c with
  | nil => exact ⟨looks, waits, fun _ h => h, rfl, fun i o reply h => by cases h⟩
  | cons o asked ih =>
    have mine : owners[caller]? = some o := numbered 0 o rfl
    have later : ∀ i o', asked[i]? = some o' → owners[caller + 1 + i]? = some o' := by
      intro i o' h
      rw [Nat.add_assoc, Nat.add_comm 1 i]
      exact numbered (i + 1) o' h
    obtain ⟨looks', waits', kept, length, heard⟩ :=
      ih (looks.request o caller) (waits.request looks.orderly mine) later
    refine ⟨looks', waits', fun call h => kept call (h.request .lookup o caller), congrArg Nat.succ length, ?_⟩
    intro i o' reply asked' given
    cases i with
    | zero =>
      obtain rfl := Option.some.inj asked'
      obtain rfl := Option.some.inj given
      exact (looks.heard o caller).mono (kept caller)
    | succ i =>
      have rest := heard i o' reply asked' given
      rw [Nat.add_assoc, Nat.add_comm 1 i] at rest
      exact rest

/-! ## 5. What lookups come to -/

theorem settled_of_heard {told : Told} {call : Nat} {reply : Cache.Reply KeyPair}
    (ended : Ended owners c₀ c told c') (idle : c'.Idle) (heard : Heard c₀ c o call reply)
    (asked : owners[call]? = some o) : reply.settled told call = c₀.answer o := by
  cases reply with
  | refused f => exact heard.elim
  | hit keys => exact heard.symm
  | waits id starts =>
    obtain ⟨missing, waiting⟩ := heard
    rw [answer_of_missing missing]
    -- Nobody waits any more, so that the call was told, and all that it was told is right.
    have found : Entries.get? told call = some ((c₀.looked o).map some) := by
      rcases ended.covers call waiting with ⟨m, hm, -⟩ | ⟨outcome, told'⟩
      · rw [idle.cached] at hm
        exact absurd hm List.not_mem_nil
      · obtain ⟨outcome', found⟩ := Entries.mem_keys_iff.1 (List.mem_map_of_mem (f := (·.1)) told')
        obtain ⟨o', asked', rfl⟩ := ended.right _ (Entries.mem_of_get? found)
        obtain rfl := Option.some.inj (asked.symm.trans asked')
        exact found
    unfold Cache.Reply.settled Cache.Reply.answer
    rw [found]
    cases c₀.looked o <;> rfl

/-- Lookups made at the same time are told what each would be told alone, and leave that as it is. -/
theorem askAll_lookups (quiet : c.Quiet) (source : KeySource) (owners : List Owner) :
    (askAll source (owners.map (.lookup, ·)) c).1 = owners.map c.answer ∧
      Looks c (askAll source (owners.map (.lookup, ·)) c).2 := by
  have nobody : Waits owners c := by
    intro m hm
    rw [quiet.idle.cached] at hm
    exact absurd hm List.not_mem_nil
  have numbered : ∀ i o, owners[i]? = some o → owners[0 + i]? = some o := by
    intro i o h
    rw [Nat.zero_add]
    exact h
  obtain ⟨looks, waits, -, length, heard⟩ := quiet.looks.requestAll nobody numbered
  have idle := (quiet.askAll source (owners.map (.lookup, ·))).idle
  have ended := looks.finishAll waits source
    ((requestAll 0 (owners.map (.lookup, ·)) c).1.filterMap (·.started?))
  have answers : (askAll source (owners.map (.lookup, ·)) c).1
      = (requestAll 0 (owners.map (.lookup, ·)) c).1.zipIdx.map fun r => r.1.settled (finishAll source
          ((requestAll 0 (owners.map (.lookup, ·)) c).1.filterMap (·.started?))
          (requestAll 0 (owners.map (.lookup, ·)) c).2).1 r.2 := rfl
  refine ⟨?_, ended.looks⟩
  rw [answers]
  refine List.ext_getElem? fun i => ?_
  rw [List.getElem?_map, List.getElem?_map, List.getElem?_zipIdx]
  cases asked : owners[i]? with
  | none =>
    have beyond : (requestAll 0 (owners.map (.lookup, ·)) c).1[i]? = none := by
      rw [List.getElem?_eq_none_iff] at asked ⊢
      omega
    rw [beyond]
    rfl
  | some o =>
    have within : i < (requestAll 0 (owners.map (.lookup, ·)) c).1.length := by
      rw [length]
      exact (List.getElem?_eq_some_iff.1 asked).1
    obtain ⟨reply, given⟩ : ∃ reply, (requestAll 0 (owners.map (.lookup, ·)) c).1[i]? = some reply :=
      ⟨_, List.getElem?_eq_getElem within⟩
    have heard := heard i o reply asked given
    rw [Nat.zero_add] at heard
    rw [given]
    show some (reply.settled _ (0 + i)) = some (c.answer o)
    rw [Nat.zero_add]
    exact congrArg some (settled_of_heard ended idle heard asked)

theorem ask_lookup (quiet : c.Quiet) (source : KeySource) (o : Owner) :
    (ask source .lookup o c).1 = c.answer o ∧ Looks c (ask source .lookup o c).2 := by
  have alone := askAll_lookups quiet source [o]
  rw [List.map_singleton, askAll_singleton] at alone
  exact ⟨List.head_eq_of_cons_eq alone.1, alone.2⟩

/-- In a sound key store, the keys of an owner in custody are what a lookup is told. -/
theorem answer_of_serves (sound : c.Sound) (serves : c.Serves o keys) : c.answer o = .ok keys := by
  cases cached : c.cached? o with
  | some keys' =>
    -- What is cached is in custody, too.
    obtain ⟨e, he, hv⟩ := Option.bind_eq_some_iff.1 cached
    obtain ⟨keys'', hv', serves'⟩ := sound.entries _ (Entries.mem_of_get? (Option.filter_eq_some_iff.1 he).1)
    obtain rfl := Option.some.inj (hv.symm.trans hv')
    rw [answer_of_cached cached, serves.1.unique serves'.1]
  | none =>
    obtain ⟨⟨r, held, opens⟩, tries⟩ := serves
    rw [answer_of_missing cached]
    unfold looked
    rw [if_neg (Int.not_lt.2 tries), held]
    exact opens

end SealedFields.Custody
