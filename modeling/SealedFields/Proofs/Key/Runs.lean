import SealedFields.Proofs.Key.OnePair

/-!
# Runs of the key store

Asking for keys and waiting until every load has ended is one of the histories of a key store, so that
what is told is true.
-/

namespace SealedFields.Custody

/-! ## 1. Asking is a history -/

namespace Session

variable {source : KeySource} {s : Session}

/-- A session after more events, the first one first. -/
def run (source : KeySource) (s : Session) (events : List Event) : Session := events.foldl (step source) s

theorem run_append (source : KeySource) (s : Session) (first second : List Event) :
    s.run source (first ++ second) = (s.run source first).run source second := List.foldl_append

theorem Sound.run (sound : s.Sound) (faithful : source.Faithful) (events : List Event) :
    (s.run source events).Sound := by
  induction events generalizing s with
  | nil => exact sound
  | cons e events ih => exact ih (sound.step faithful e)

theorem grows_run (sound : s.Sound) (faithful : source.Faithful) (events : List Event) :
    Grows s.custody (s.run source events).custody := by
  induction events generalizing s with
  | nil => exact .refl _
  | cons e events ih => exact (grows_step sound e).trans (ih (sound.step faithful e))

theorem step_resume_of_none (source : KeySource) (s : Session) {id : Nat}
    (none : Entries.get? s.pending id = none) : step source s (.resume id) = s := by
  dsimp only [step]
  rw [none]
  split
  case h_1 h => cases h
  case h_2 => rfl

/-- A step of a load is a call to the custodian whose answer arrives at once. -/
theorem run_advance (source : KeySource) (idle : s.pending = []) {l : KeyLoad}
    (found : s.custody.store.loads.find? (·.id = l.id) = some l) :
    s.run source [.consult l.id, .resume l.id] = { s with
      custody := (advance source l s.custody).2
      answers := s.answers ++ (advance source l s.custody).1 } := by
  show step source (step source s (.consult l.id)) (.resume l.id) = _
  -- No answer is on its way, so that the load may call at once.
  have none : Entries.get? s.pending l.id = none := by rw [idle, Entries.get?_nil]
  unfold advance Custody.step
  -- A load that may not try ends at once, and then there is nothing to go on with.
  by_cases may : s.custody.mayTry l.phase = true
  · have first : step source s (.consult l.id) = { s with
        custody := (consult l.owner l.phase s.custody).2
        pending := [(l.id, (consult l.owner l.phase s.custody).1)] } := by
      simp only [step, found, none, if_pos may]
      rw [idle]
      rfl
    have found' : (consult l.owner l.phase s.custody).2.store.loads.find? (·.id = l.id) = some l := by
      rw [(consulted l.owner l.phase s.custody).loads_eq]
      exact found
    have arrived : Entries.get? [(l.id, (consult l.owner l.phase s.custody).1)] l.id
        = some (consult l.owner l.phase s.custody).1 := by rw [Entries.get?_cons, if_pos rfl]
    have taken : Entries.erase [(l.id, (consult l.owner l.phase s.custody).1)] l.id = [] := by
      simp [Entries.erase]
    rw [first, if_pos may]
    simp only [step, found', arrived, taken, settle]
    rw [idle]
  · have first : step source s (.consult l.id)
        = { s with custody := s.custody.withLabel l.phase }.settle l (.finish (.error .noAttempt)) := by
      simp only [step, found, none, if_neg may]
    rw [first, if_neg may]
    exact step_resume_of_none source _ none

theorem exists_run_finish (source : KeySource) (id steps : Nat) (s : Session) (idle : s.pending = []) :
    ∃ events, s.run source events = { s with
      custody := (finish source id steps s.custody).2
      answers := s.answers ++ (finish source id steps s.custody).1 } := by
  -- Induction on the steps left: each of them is two events, a call and its answer.
  induction steps generalizing s with
  | zero => exact ⟨[], by simp [run, finish]⟩
  | succ steps ih =>
    rw [finish]
    cases found : s.custody.store.loads.find? (·.id = id) with
    | none => exact ⟨[], by simp [run]⟩
    | some l =>
      obtain rfl : l.id = id := by simpa using List.find?_some found
      have first := run_advance source idle found
      obtain ⟨events, rest⟩ := ih { s with
        custody := (advance source l s.custody).2
        answers := s.answers ++ (advance source l s.custody).1 } idle
      refine ⟨[.consult l.id, .resume l.id] ++ events, ?_⟩
      rw [run_append, first, rest]
      dsimp only
      rw [List.append_assoc]

theorem exists_run_finishAll (source : KeySource) (ids : List Nat) (s : Session) (idle : s.pending = []) :
    ∃ events, s.run source events = { s with
      custody := (finishAll source ids s.custody).2
      answers := s.answers ++ (finishAll source ids s.custody).1 } := by
  induction ids generalizing s with
  | nil => exact ⟨[], by simp [run, finishAll]⟩
  | cons id ids ih =>
    obtain ⟨first, hf⟩ := exists_run_finish source id s.custody.maxSteps s idle
    obtain ⟨rest, hr⟩ := ih { s with
      custody := (finish source id s.custody.maxSteps s.custody).2
      answers := s.answers ++ (finish source id s.custody.maxSteps s.custody).1 } idle
    refine ⟨first ++ rest, ?_⟩
    rw [run_append, hf, hr, finishAll]
    dsimp only
    rw [List.append_assoc]

/-- What calls are told at once, the calls being numbered from `caller` on. -/
def toldAtOnce : (caller : Nat) → List (Cache.Reply KeyPair) → List (Nat × Cache.Outcome KeyPair)
  | _, [] => []
  | caller, reply :: replies => (atOnce reply).map (caller, ·) ++ toldAtOnce (caller + 1) replies

theorem run_requests (source : KeySource) (requests : List (Errand × Owner)) (s : Session) :
    s.run source (requests.map fun r => .request r.1 r.2) = { s with
      custody := (requestAll s.asked.length requests s.custody).2
      asked := s.asked ++ requests
      answers := s.answers ++ toldAtOnce s.asked.length (requestAll s.asked.length requests s.custody).1 } := by
  induction requests generalizing s with
  | nil => simp [run, requestAll, toldAtOnce]
  | cons r requests ih =>
    have first : s.run source ((r :: requests).map fun r => .request r.1 r.2)
        = (step source s (.request r.1 r.2)).run source (requests.map fun r => .request r.1 r.2) := rfl
    have more : (step source s (.request r.1 r.2)).asked.length = s.asked.length + 1 :=
      List.length_append
    rw [first, ih, more, requestAll]
    dsimp only [step]
    simp only [toldAtOnce, List.append_assoc, List.singleton_append]

theorem mem_toldAtOnce {replies : List (Cache.Reply KeyPair)} {i : Nat} {keys : KeyPair}
    (h : replies[i]? = some (.hit keys)) (caller : Nat) :
    (caller + i, .ok (some keys)) ∈ toldAtOnce caller replies := by
  induction replies generalizing caller i with
  | nil => cases h
  | cons reply replies ih =>
    cases i with
    | zero =>
      obtain rfl := Option.some.inj h
      exact List.mem_append_left _ (List.mem_singleton_self _)
    | succ i =>
      have rest := ih h (caller + 1)
      rw [Nat.add_assoc, Nat.add_comm 1 i] at rest
      exact List.mem_append_right _ rest

/-- Asking and waiting is a history, and its answers are what the calls are told. -/
theorem exists_run_askAll (source : KeySource) (requests : List (Errand × Owner)) (c : Custody) :
    ∃ events answers, run source ⟨c, [], [], []⟩ events
        = ⟨(askAll source requests c).2, [], requests, answers⟩ ∧
      ∀ i keys, (askAll source requests c).1[i]? = some (.ok keys) → (i, .ok (some keys)) ∈ answers := by
  cases hq : requestAll 0 requests c with
  | mk replies requested =>
  cases hf : finishAll source (replies.filterMap (·.started?)) requested with
  | mk told ended =>
  have asked : askAll source requests c
      = (replies.zipIdx.map fun r => r.1.settled told r.2, ended) := by
    simp only [askAll, hq, hf]
  have first := run_requests source requests ⟨c, [], [], []⟩
  obtain ⟨events, rest⟩ := exists_run_finishAll source (replies.filterMap (·.started?))
    ⟨requested, [], requests, toldAtOnce 0 replies⟩ rfl
  rw [hf] at rest
  -- First all calls are made, then their loads are followed to their ends.
  refine ⟨requests.map (fun r => .request r.1 r.2) ++ events, toldAtOnce 0 replies ++ told, ?_, ?_⟩
  · rw [run_append, first]
    dsimp only [List.length_nil, List.nil_append]
    rw [hq, asked]
    exact rest
  · intro i keys h
    rw [asked, List.getElem?_map, List.getElem?_zipIdx] at h
    obtain ⟨⟨reply, caller⟩, found, settled⟩ := Option.map_eq_some_iff.1 h
    obtain ⟨reply', at_i, same⟩ := Option.map_eq_some_iff.1 found
    obtain ⟨rfl, rfl⟩ := Prod.mk.inj same
    rw [Nat.zero_add] at settled
    cases reply' with
    | refused f => cases settled
    | hit keys' =>
      obtain rfl : keys' = keys := Except.ok.inj settled
      have atOnce := mem_toldAtOnce at_i 0
      rw [Nat.zero_add] at atOnce
      exact List.mem_append_left _ atOnce
    | waits id starts =>
      exact List.mem_append_right _ (Entries.mem_of_get? (Cache.told_of_settled settled))

end Session

/-! ## 2. Truth of the answers -/

/-- A key store with no load under way. -/
structure Idle (c : Custody) : Prop where
  loads : c.store.loads = []
  cached : c.store.keyCache.loads = []

variable {c : Custody} {source : KeySource}

theorem Orderly.idle (orderly : c.Orderly) (loads : c.store.loads = []) : c.Idle := by
  refine ⟨loads, ?_⟩
  have same := orderly.mirrored
  rw [loads] at same
  exact List.map_eq_nil_iff.1 same.symm

theorem Idle.session (idle : c.Idle) (sound : c.Sound) : Session.Sound ⟨c, [], [], []⟩ where
  custody := sound
  pending _ _ h := by cases h
  started := by
    show ∀ l ∈ c.store.loads, _
    rw [idle.loads]
    exact fun _ h => by cases h
  waiting := by
    show ∀ m ∈ c.store.keyCache.loads, _
    rw [idle.cached]
    exact fun _ h => by cases h
  answers _ h := by cases h

theorem Sound.askAll (sound : c.Sound) (idle : c.Idle) (faithful : source.Faithful)
    (requests : List (Errand × Owner)) : (askAll source requests c).2.Sound := by
  obtain ⟨events, answers, run, -⟩ := Session.exists_run_askAll source requests c
  have sound := (idle.session sound).run faithful events
  rw [run] at sound
  exact sound.custody

theorem grows_askAll (sound : c.Sound) (idle : c.Idle) (faithful : source.Faithful)
    (requests : List (Errand × Owner)) : Grows c (askAll source requests c).2 := by
  obtain ⟨events, answers, run, -⟩ := Session.exists_run_askAll source requests c
  have grows := Session.grows_run (idle.session sound) faithful events
  rw [run] at grows
  exact grows

/-- Keys that are told are the owner's keys in custody. -/
theorem serves_askAll (sound : c.Sound) (idle : c.Idle) (faithful : source.Faithful)
    {requests : List (Errand × Owner)} {i : Nat} {errand : Errand} {o : Owner} {keys : KeyPair}
    (asked : requests[i]? = some (errand, o))
    (told : (askAll source requests c).1[i]? = some (.ok keys)) :
    (askAll source requests c).2.Serves o keys := by
  obtain ⟨events, answers, run, answered⟩ := Session.exists_run_askAll source requests c
  have sound := (idle.session sound).run faithful events
  rw [run] at sound
  obtain ⟨errand', o', asked', keys', hk, serves⟩ := sound.answers _ (answered i keys told)
  obtain ⟨-, rfl⟩ := Prod.mk.inj (Option.some.inj (asked.symm.trans asked'))
  obtain rfl := Option.some.inj hk
  exact serves

end SealedFields.Custody
