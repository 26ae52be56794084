import SealedFields.Proofs.Cache.Loads

/-!
# A cache over its whole life

A cache is told of calls, of callers that give up, of loads that end, of commands, and of closing, in any
order and at any times. Whatever happens, loads are shared and never doubled, every entry is the latest
value loaded for its key, no expired entry is handed out, and a closed cache stays empty.
-/

namespace SealedFields.Cache

variable {κ φ α : Type} [DecidableEq κ] [DecidableEq φ]

/-! ## 1. Histories -/

/-- What can happen to a cache. Calls are numbered as they come, and loads as they start. -/
inductive Event (κ φ α : Type) where
  | request (key : κ) (flight : φ)
  | giveUp (call : Nat)
  /-- A load under way has its value, or fails. A cancelled load fails by being cancelled. -/
  | loadEnds (id : Nat) (result : Except Failure α)
  | invalidate (key : κ)
  | purge
  /-- A closing begins: no call is served any more, and the loads under way are cancelled. -/
  | beginClose
  /-- A closing under way comes to its end, which it cannot before the loads that it cancelled have ended. -/
  | endClose (closing : Nat)

/-- An event, and the time at which it happens. -/
structure Moment (κ φ α : Type) where
  now : Float
  event : Event κ φ α

/-- A cache in use, with the number of calls so far, and the loads that each closing under way waits for; has a closing
come to its end? -/
structure Session (κ φ α : Type) where
  cache : Cache κ φ α
  calls : Nat
  closings : List (List Nat)
  finished : Bool

namespace Session

/-- What a call for a key would be told at once. -/
def reply (s : Session κ φ α) (now : Float) (key : κ) (flight : φ) : Reply α :=
  (s.cache.request now key flight s.calls).1

def told (s : Session κ φ α) (m : Moment κ φ α) : List (Nat × Outcome α) :=
  match m.event with
  | .loadEnds id result => (s.cache.complete m.now id (result.map some)).1
  | _ => []

/-- A closing under way has nothing to wait for once none of its loads is under way. -/
def mayEnd (s : Session κ φ α) (closing : Nat) : Bool :=
  match s.closings[closing]? with
  | some cancelled => s.cache.loads.all fun l => !cancelled.contains l.id
  | none => false

/-- What happens changes the cache; an event that cannot happen changes nothing. -/
def step (s : Session κ φ α) (m : Moment κ φ α) : Session κ φ α :=
  match m.event with
  | .request key flight =>
    { s with cache := (s.cache.request m.now key flight s.calls).2, calls := s.calls + 1 }
  | .giveUp call => { s with cache := s.cache.giveUp call }
  | .loadEnds id result => { s with cache := (s.cache.complete m.now id (result.map some)).2 }
  | .invalidate key => { s with cache := s.cache.invalidate key }
  | .purge => { s with cache := (s.cache.purge m.now).2 }
  | .beginClose => { s with cache := s.cache.beginClose, closings := s.closings ++ [s.cache.loads.map Load.id] }
  | .endClose closing =>
    if s.mayEnd closing then
      { s with cache := s.cache.endClose, closings := s.closings.eraseIdx closing, finished := true }
    else s

/-- A new cache after a history, the latest moment first. -/
def after (c : Cache κ φ α) : List (Moment κ φ α) → Session κ φ α
  | [] => ⟨c, 0, [], false⟩
  | m :: earlier => (after c earlier).step m

/-- A load for the key ends with a value, which makes the entry `e`. -/
def Loads (s : Session κ φ α) (m : Moment κ φ α) (ttl : Float) (key : κ) (e : CacheEntry α) : Prop :=
  ∃ id v, m.event = .loadEnds id (.ok v) ∧ (∃ l ∈ s.cache.loads, l.id = id ∧ l.key = key) ∧
    e = ⟨some v, m.now + ttl⟩

/-- A call waits for a load. -/
def Waits (s : Session κ φ α) (call id : Nat) : Prop := ∃ l ∈ s.cache.loads, l.id = id ∧ call ∈ l.waiting

/-! ## 2. What every moment keeps -/

/-- The invariant: loads and entries are in order, a closing waits for every load under way, since no load begins after
it, and a cache whose closing has ended is empty. -/
structure Sound (ttl : Float) (name : Text) (s : Session κ φ α) : Prop where
  tidy : s.cache.Tidy
  ttl_eq : s.cache.ttl = ttl
  name_eq : s.cache.name = name
  closed : ∀ cancelled ∈ s.closings, s.cache.closed = true
  cancelled : ∀ cancelled ∈ s.closings, ∀ l ∈ s.cache.loads, l.id ∈ cancelled
  finished : s.finished = true → s.cache.closed = true ∧ s.cache.loads = [] ∧ s.cache.entries = []

variable {ttl : Float} {name : Text} {s : Session κ φ α}

omit [DecidableEq κ] [DecidableEq φ] in
/-- A closing that comes to its end has waited for the last load. -/
theorem Sound.loads_of_mayEnd (sound : Sound ttl name s) {closing : Nat} (h : s.mayEnd closing = true) :
    s.cache.closed = true ∧ s.cache.loads = [] := by
  unfold mayEnd at h
  split at h
  case h_1 cancelled found =>
    have member := List.mem_of_getElem? found
    refine ⟨sound.closed cancelled member, List.eq_nil_iff_forall_not_mem.2 fun l hl => ?_⟩
    have ended : (!cancelled.contains l.id) = true := List.all_eq_true.1 h l hl
    simp [sound.cancelled cancelled member l hl] at ended
  case h_2 => cases h

theorem Sound.step (sound : Sound ttl name s) (m : Moment κ φ α) : Sound ttl name (s.step m) := by
  -- A cache whose closing has ended holds nothing, so that no event finds anything to change in it.
  obtain ⟨tidy, timed, named, closed, cancelled, finished⟩ := id sound
  obtain ⟨now, event⟩ := m
  cases event with
  | request key flight =>
    have spec := request_spec now key flight s.calls s.cache
    have idle (h : s.cache.closed = true) : (s.step ⟨now, .request key flight⟩).cache = s.cache :=
      congrArg Prod.snd (request_of_closed h now key flight s.calls)
    refine ⟨spec.tidy tidy, spec.setup.1.trans timed, spec.setup.2.trans named, fun w hw => ?_, fun w hw l hl => ?_, fun h => ?_⟩
    · rw [idle (closed w hw)]
      exact closed w hw
    · rw [idle (closed w hw)] at hl
      exact cancelled w hw l hl
    · rw [idle (finished h).1]
      exact finished h
  | giveUp call =>
    refine ⟨tidy.giveUp call, timed, named, closed, fun w hw l hl => ?_, fun h => ?_⟩
    · obtain ⟨l', hl', rfl⟩ := List.mem_map.1 hl
      exact cancelled w hw l' hl'
    · obtain ⟨closed, loads, entries⟩ := finished h
      refine ⟨closed, ?_, entries⟩
      show s.cache.loads.map _ = []
      rw [loads, List.map_nil]
  | loadEnds id result =>
    have setup := setup_complete now id (result.map some) s.cache
    refine ⟨tidy.complete now id _, setup.1.trans timed, setup.2.trans named, fun w hw => ?_, fun w hw l hl => ?_,
      fun h => ?_⟩
    · exact (closed_complete now id _ s.cache).trans (closed w hw)
    · have remaining : l ∈ s.cache.loads.filter (·.id ≠ id) := loads_complete now id (result.map some) s.cache ▸ hl
      exact cancelled w hw l (List.mem_filter.1 remaining).1
    · obtain ⟨closed, loads, entries⟩ := finished h
      have idle : (s.step ⟨now, .loadEnds id result⟩).cache = s.cache :=
        congrArg Prod.snd (complete_of_none (by simp [loads]) now (result.map some))
      rw [idle]
      exact ⟨closed, loads, entries⟩
  | invalidate key =>
    refine ⟨tidy.invalidate key, timed, named, closed, cancelled, fun h => ?_⟩
    obtain ⟨closed, loads, entries⟩ := finished h
    refine ⟨closed, loads, ?_⟩
    show Entries.erase s.cache.entries key = []
    rw [entries]
    rfl
  | purge =>
    refine ⟨tidy.purge now, timed, named, closed, cancelled, fun h => ?_⟩
    obtain ⟨closed, loads, entries⟩ := finished h
    refine ⟨closed, loads, List.eq_nil_iff_forall_not_mem.2 fun e he => ?_⟩
    have := (mem_entries_purge.1 he).1
    rw [entries] at this
    exact List.not_mem_nil this
  | beginClose =>
    refine ⟨tidy.of_entries rfl rfl tidy.keys, timed, named, fun _ _ => rfl, fun w hw l hl => ?_, fun h => ?_⟩
    · -- The closing that begins cancels whatever is under way.
      rcases List.mem_append.1 hw with earlier | new
      · exact cancelled w earlier l hl
      · rw [List.mem_singleton.1 new]
        exact List.mem_map_of_mem hl
    · exact ⟨rfl, (finished h).2⟩
  | endClose closing =>
    show Sound ttl name (if s.mayEnd closing then _ else s)
    split
    case isTrue h =>
      have ended := sound.loads_of_mayEnd h
      exact ⟨⟨List.nodup_nil, by simp [endClose], List.nodup_nil, List.nodup_nil⟩, timed, named,
        fun _ _ => ended.1, fun _ _ _ hl => absurd hl List.not_mem_nil, fun _ => ⟨ended.1, rfl, rfl⟩⟩
    case isFalse => exact sound

theorem sound_after {c : Cache κ φ α} (hc : empty ttl name = .ok c)
    (history : List (Moment κ φ α)) : Sound ttl name (after c history) := by
  induction history with
  | nil =>
    unfold empty at hc
    split at hc
    case isTrue => cases hc
    case isFalse =>
      obtain rfl := Except.ok.inj hc
      exact ⟨tidy_empty ttl name, rfl, rfl, nofun, nofun, nofun⟩
  | cons m earlier ih => exact ih.step m

/-! ## 3. Waiting for a load -/

theorem waits_request {now : Float} {key : κ} {flight : φ} {id : Nat} {starts : Bool}
    (h : s.reply now key flight = .waits id starts) :
    (s.step ⟨now, .request key flight⟩).Waits s.calls id := by
  have spec := request_spec now key flight s.calls s.cache
  unfold reply at h
  rw [h] at spec
  show ∃ l ∈ (s.cache.request now key flight s.calls).2.loads, _
  generalize (s.cache.request now key flight s.calls).2 = c' at spec
  -- The caller is added to the load it joins, and is the first one of a load that it starts.
  cases spec with
  | @joins l opened mem =>
    refine ⟨_, List.mem_map_of_mem mem, (joinedBy_same _ _ l).1, ?_⟩
    simp [Load.joinedBy]
  | starts => exact ⟨_, List.mem_append_right _ (List.mem_singleton_self _), rfl, by simp⟩

/-- It goes on waiting until it gives up or the load ends. -/
theorem Waits.step (sound : Sound ttl name s) {call id : Nat} (h : s.Waits call id) {m : Moment κ φ α}
    (stays : m.event ≠ .giveUp call) (goes : ∀ r, m.event ≠ .loadEnds id r) :
    (s.step m).Waits call id := by
  obtain ⟨l, hl, hid, hc⟩ := h
  obtain ⟨now, event⟩ := m
  cases event with
  -- A request adds callers, an end drops its own load, and only giving up takes a caller away.
  | request key flight =>
    have spec := request_spec now key flight s.calls s.cache
    show ∃ l ∈ (s.cache.request now key flight s.calls).2.loads, _
    generalize (s.cache.request now key flight s.calls).1 = reply at spec
    generalize (s.cache.request now key flight s.calls).2 = c' at spec
    cases spec with
    | refused => exact ⟨l, hl, hid, hc⟩
    | hit => exact ⟨l, hl, hid, hc⟩
    | @joins m =>
      refine ⟨_, List.mem_map_of_mem hl, (joinedBy_same _ _ l).1.trans hid, ?_⟩
      unfold Load.joinedBy
      split
      case isTrue => exact List.mem_append_left _ hc
      case isFalse => exact hc
    | starts => exact ⟨l, List.mem_append_left _ hl, hid, hc⟩
  | giveUp other =>
    refine ⟨_, List.mem_map_of_mem hl, hid, List.mem_filter.2 ⟨hc, ?_⟩⟩
    have ne : call ≠ other := fun he => stays (he ▸ rfl)
    simpa using ne
  | loadEnds other result =>
    have ne : id ≠ other := fun he => goes result (he ▸ rfl)
    refine ⟨l, ?_, hid, hc⟩
    show l ∈ (s.cache.complete now other (result.map some)).2.loads
    unfold complete
    split
    case h_1 => exact hl
    case h_2 m hm =>
      have same : m.id = other := by simpa using List.find?_some hm
      refine List.mem_filter.2 ⟨hl, ?_⟩
      simpa [hid, same] using ne
  | invalidate key => exact ⟨l, hl, hid, hc⟩
  | purge => exact ⟨l, hl, hid, hc⟩
  | beginClose => exact ⟨l, hl, hid, hc⟩
  | endClose closing =>
    show (if s.mayEnd closing then _ else s).Waits call id
    split
    case isTrue h =>
      rw [(sound.loads_of_mayEnd h).2] at hl
      exact absurd hl List.not_mem_nil
    case isFalse => exact ⟨l, hl, hid, hc⟩

theorem Waits.after {c : Cache κ φ α} (hc : empty ttl name = .ok c) {call id : Nat} {history : List (Moment κ φ α)}
    (h : (after c history).Waits call id) {later : List (Moment κ φ α)}
    (stays : ∀ m ∈ later, m.event ≠ .giveUp call ∧ ∀ r, m.event ≠ .loadEnds id r) :
    (Session.after c (later ++ history)).Waits call id := by
  -- Induction on what happens later, of which the latest moment comes first.
  induction later with
  | nil => exact h
  | cons m later ih =>
    rw [List.forall_mem_cons] at stays
    exact (ih stays.2).step (sound_after hc _) stays.1.1 stays.1.2

omit [DecidableEq φ] in
/-- When the load ends, a call that waits for it is told how it ended, and nothing else. -/
theorem Waits.told_iff (sound : Sound ttl name s) {call id : Nat} (h : s.Waits call id) (now : Float)
    (result : Except Failure α) (outcome : Outcome α) :
    (call, outcome) ∈ s.told ⟨now, .loadEnds id result⟩ ↔ outcome = result.map some := by
  obtain ⟨l, hl, rfl, hc⟩ := h
  have told : s.told ⟨now, .loadEnds l.id result⟩ = l.waiting.map (·, result.map some) :=
    congrArg Prod.fst (complete_of_mem sound.tidy.ids hl now _)
  rw [told, List.mem_map]
  constructor
  · rintro ⟨call', -, he⟩
    exact (Prod.mk.inj he).2.symm
  · rintro rfl
    exact ⟨call, hc, rfl⟩

/-! ## 4. Entries -/

/-- An entry was there before, and neither dropped nor loaded anew, or it is loaded now. -/
theorem entry_step (sound : Sound ttl name s) {m : Moment κ φ α} {key : κ} {e : CacheEntry α}
    (h : (key, e) ∈ (s.step m).cache.entries) :
    s.Loads m ttl key e ∨ (key, e) ∈ s.cache.entries ∧ m.event ≠ .invalidate key ∧
      ∀ e', ¬ s.Loads m ttl key e' := by
  obtain ⟨now, event⟩ := m
  -- Only a load that ends with a value loads anything.
  have idle (hev : ∀ id v, event ≠ .loadEnds id (.ok v)) : ∀ e', ¬ s.Loads ⟨now, event⟩ ttl key e' := by
    rintro e' ⟨id, v, hid, -⟩
    exact hev id v hid
  cases event with
  | request key' flight =>
    refine .inr ⟨?_, by simp, idle (by simp)⟩
    have spec := request_spec now key' flight s.calls s.cache
    have h : (key, e) ∈ (s.cache.request now key' flight s.calls).2.entries := h
    generalize (s.cache.request now key' flight s.calls).1 = reply at spec
    generalize (s.cache.request now key' flight s.calls).2 = c' at spec h
    cases spec with
    | refused => exact h
    | hit => exact (mem_entries_purge.1 h).1
    | joins => exact (mem_entries_purge.1 h).1
    | starts => exact (mem_entries_purge.1 h).1
  -- Nothing but the end of a load writes an entry; the other events keep entries or drop them.
  | giveUp call => exact .inr ⟨h, by simp, idle (by simp)⟩
  | loadEnds id result =>
    have h : (key, e) ∈ (s.cache.complete now id (result.map some)).2.entries := h
    by_cases under : ∃ l ∈ s.cache.loads, l.id = id
    · obtain ⟨l, hl, rfl⟩ := under
      rw [complete_of_mem sound.tidy.ids hl] at h
      cases result with
      | error f => exact .inr ⟨h, by simp, idle (by simp)⟩
      | ok v =>
        rcases Entries.mem_put sound.tidy.keys h with he | ⟨hne, he⟩
        · obtain ⟨rfl, rfl⟩ := Prod.mk.inj he
          exact .inl ⟨l.id, v, rfl, ⟨l, hl, rfl, rfl⟩, by rw [sound.ttl_eq]⟩
        · refine .inr ⟨he, by simp, ?_⟩
          rintro e' ⟨id', v', hev, ⟨l', hl', hid, hkey⟩, -⟩
          obtain ⟨hid', -⟩ := Event.loadEnds.inj hev
          obtain rfl := sound.tidy.load_ext hl' hl (hid.trans hid'.symm)
          exact hne hkey.symm
    · rw [complete_of_none (fun l hl he => under ⟨l, hl, he⟩)] at h
      refine .inr ⟨h, by simp, ?_⟩
      rintro e' ⟨id', v', hev, ⟨l, hl, hid, -⟩, -⟩
      obtain ⟨hid', -⟩ := Event.loadEnds.inj hev
      exact under ⟨l, hl, hid.trans hid'.symm⟩
  | invalidate key' =>
    obtain ⟨he, hne⟩ := List.mem_filter.1 h
    have hne : key ≠ key' := by simpa using hne
    exact .inr ⟨he, fun hev => hne (Event.invalidate.inj hev).symm, idle (by simp)⟩
  | purge => exact .inr ⟨(mem_entries_purge.1 h).1, by simp, idle (by simp)⟩
  | beginClose => exact .inr ⟨h, by simp, idle (by simp)⟩
  | endClose closing =>
    refine .inr ⟨?_, by simp, idle (by simp)⟩
    have h : (key, e) ∈ (if s.mayEnd closing then _ else s).cache.entries := h
    split at h
    case isTrue => exact absurd h List.not_mem_nil
    case isFalse => exact h

/-- Every entry was made by the latest load of its key that ended with a value, and the key has not been
invalidated since. -/
theorem entry_latest {c : Cache κ φ α} (hc : empty ttl name = .ok c)
    (history : List (Moment κ φ α)) {key : κ} {e : CacheEntry α}
    (h : (key, e) ∈ (after c history).cache.entries) :
    ∃ later m earlier, history = later ++ m :: earlier ∧ (after c earlier).Loads m ttl key e ∧
      ∀ after' m' between, later = after' ++ m' :: between → m'.event ≠ .invalidate key ∧
        ∀ e', ¬ (after c (between ++ m :: earlier)).Loads m' ttl key e' := by
  -- The latest moment made the entry, or it was there already and the induction says who made it.
  induction history with
  | nil =>
    unfold empty at hc
    split at hc
    case isTrue => cases hc
    case isFalse =>
      obtain rfl := Except.ok.inj hc
      exact absurd h List.not_mem_nil
  | cons m history ih =>
    rcases entry_step (sound_after hc history) h with loads | ⟨before, kept, idle⟩
    · refine ⟨[], m, history, rfl, loads, ?_⟩
      intro after' m' between h
      simp at h
    · obtain ⟨later, m₀, earlier, rfl, loads, since⟩ := ih before
      refine ⟨m :: later, m₀, earlier, rfl, loads, ?_⟩
      intro after' m' between hsplit
      cases after' with
      | nil =>
        obtain ⟨rfl, rfl⟩ := List.cons.inj hsplit
        exact ⟨kept, idle⟩
      | cons _ after' => exact since after' m' between (List.cons.inj hsplit).2

/-! ## 5. Safety -/

/-- At any moment of any life of a cache: at most one load is under way for each key and flight, and a call
that misses while it is joins it; a call that waits and does not give up is told how its load ends,
whoever else gives up; entries are the latest values loaded, with the end of their time; none is handed
out when its time is over; a load that fails leaves nothing; a closing comes to its end after the last load;
and once closed, the cache is empty and refuses every call. -/
theorem single_flight_safety {c : Cache κ φ α} (hc : empty ttl name = .ok c)
    (history : List (Moment κ φ α)) :
    let s := after c history
    (s.cache.loads.map fun l => (l.key, l.flight)).Nodup ∧
    (∀ now, ∀ l ∈ s.cache.loads, s.reply now l.key l.flight = .refused (.closed name) ∨
      (∃ v, s.reply now l.key l.flight = .hit v) ∨ s.reply now l.key l.flight = .waits l.id false) ∧
    (∀ now key flight id starts, s.reply now key flight = .waits id starts → ∀ later,
      (∀ m ∈ later, m.event ≠ .giveUp s.calls ∧ ∀ r, m.event ≠ .loadEnds id r) → ∀ ends result outcome,
      (s.calls, outcome) ∈
          (after c (later ++ ⟨now, .request key flight⟩ :: history)).told ⟨ends, .loadEnds id result⟩ ↔
        outcome = result.map some) ∧
    (∀ key e, (key, e) ∈ s.cache.entries → ∃ later m earlier, history = later ++ m :: earlier ∧
      (after c earlier).Loads m ttl key e ∧
      ∀ after' m' between, later = after' ++ m' :: between → m'.event ≠ .invalidate key ∧
        ∀ e', ¬ (after c (between ++ m :: earlier)).Loads m' ttl key e') ∧
    (∀ now key flight v, s.reply now key flight = .hit v →
      ∃ e, (key, e) ∈ s.cache.entries ∧ e.value = some v ∧ ¬ now ≥ e.expires) ∧
    (∀ now id f, (s.step ⟨now, .loadEnds id (.error f)⟩).cache.entries = s.cache.entries) ∧
    (∀ closing, s.mayEnd closing = true → s.cache.loads = []) ∧
    (s.finished = true → s.cache.entries = [] ∧ s.cache.loads = [] ∧
      ∀ now key flight, s.reply now key flight = .refused (.closed name)) := by
  intro s
  have sound : Sound ttl name s := sound_after hc history
  refine ⟨sound.tidy.slots, fun now l hl => ?_, fun now key flight id starts h later stays ends result
    outcome => ?_, fun key e => entry_latest hc history, fun now key flight v h => ?_, fun now id f => ?_,
    fun closing h => (sound.loads_of_mayEnd h).2, fun h => ?_⟩
  · -- Whoever misses joins this load, since there is no other one for the slot.
    have spec := request_spec now l.key l.flight s.calls s.cache
    unfold reply
    generalize (s.cache.request now l.key l.flight s.calls).1 = reply at spec ⊢
    generalize (s.cache.request now l.key l.flight s.calls).2 = c' at spec
    cases spec with
    | refused => exact .inl (by rw [sound.name_eq])
    | hit => exact .inr (.inl ⟨_, rfl⟩)
    | joins _ mem key_eq flight_eq =>
      rw [sound.tidy.slot_ext mem hl key_eq flight_eq]
      exact .inr (.inr rfl)
    | starts _ free => exact absurd rfl (free l hl rfl)
  · -- The call waits from its request on, until the load ends.
    have waits : (after c (⟨now, .request key flight⟩ :: history)).Waits s.calls id := waits_request h
    exact (waits.after hc stays).told_iff (sound_after hc _) ends result outcome
  · -- A hit is found after the expired entries were dropped.
    have spec := request_spec now key flight s.calls s.cache
    unfold reply at h
    rw [h] at spec
    generalize (s.cache.request now key flight s.calls).2 = c' at spec
    cases spec with
    | hit _ found live value => exact ⟨_, found, value, by simpa [CacheEntry.isExpired] using live⟩
  · show (s.cache.complete now id (.error f)).2.entries = s.cache.entries
    unfold complete
    split <;> rfl
  · obtain ⟨closed, loads, entries⟩ := sound.finished h
    refine ⟨entries, loads, fun now key flight => ?_⟩
    unfold reply
    rw [request_of_closed closed, sound.name_eq]

/-- The caller who starts a load gives up, and the one who joined it is told all the same. Closed while the load is under
way, the cache is not done with closing before the load has ended; then it refuses the same key. -/
theorem single_flight_safety_starterGivesUp :
    ∃ c : Cache Nat Nat Nat, empty 10.0 "keys" = .ok c ∧
      (1, .ok (some 7)) ∈ (after c [⟨1.5, .giveUp 0⟩, ⟨1.0, .request 3 0⟩, ⟨0.5, .request 3 0⟩]).told
        ⟨2.0, .loadEnds 0 (.ok 7)⟩ ∧
      (after c [⟨1.0, .endClose 0⟩, ⟨1.0, .beginClose⟩, ⟨0.5, .request 3 0⟩]).finished = false ∧
      let closed := after c
        [⟨2.0, .endClose 0⟩, ⟨1.5, .loadEnds 0 (.error .cancelled)⟩, ⟨1.0, .beginClose⟩, ⟨0.5, .request 3 0⟩]
      closed.cache.entries = [] ∧ closed.cache.loads = [] ∧
        ∀ now, closed.reply now 3 0 = .refused (.closed "keys") := by
  have new : (empty 10.0 "keys" : Except Failure (Cache Nat Nat Nat))
      = .ok ⟨"keys", 10.0, [], [], 0, false, 0, 0⟩ := rfl
  refine ⟨_, new, ?_, rfl, ?_⟩
  · have safe := single_flight_safety new [⟨0.5, .request 3 0⟩]
    refine (safe.2.2.1 1.0 3 0 0 false rfl [⟨1.5, .giveUp 0⟩] ?_ 2.0 (.ok 7) (.ok (some 7))).2 rfl
    intro m hm
    rw [List.mem_singleton.1 hm]
    exact ⟨fun h => absurd (Event.giveUp.inj h) (by decide), fun r h => by cases h⟩
  · obtain ⟨-, -, -, -, -, -, -, ended⟩ := single_flight_safety new
      [⟨2.0, .endClose 0⟩, ⟨1.5, .loadEnds 0 (.error .cancelled)⟩, ⟨1.0, .beginClose⟩, ⟨0.5, .request 3 0⟩]
    obtain ⟨entries, loads, refused⟩ := ended rfl
    exact ⟨entries, loads, fun now => refused now 3 0⟩

end Session

end SealedFields.Cache
