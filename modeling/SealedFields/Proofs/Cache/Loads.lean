import Mathlib.Data.List.Nodup
import SealedFields.Cache
import SealedFields.Proofs.Entries

/-!
# One request, one load

What a request to the cache and the end of a load come to, and the order that both keep: one load under
way for each key and flight, one entry for each key.
-/

namespace SealedFields.Cache

variable {κ φ α : Type} {c c' : Cache κ φ α}

/-! ## 1. Requests -/

/-- What a request comes to: the cache is closed, or a live entry answers, or the caller joins the load
under way for the key and flight, or starts one. -/
inductive Requested (now : Float) (key : κ) (flight : φ) (caller : Nat) (c : Cache κ φ α) :
    Reply α → Cache κ φ α → Prop
  | refused (closed : c.closed = true) :
      Requested now key flight caller c (.refused (.closed c.name)) c
  | hit {e : CacheEntry α} {v : α} (opened : c.closed = false) (found : (key, e) ∈ c.entries)
      (live : e.isExpired now = false) (value : e.value = some v) :
      Requested now key flight caller c (.hit v) { (c.purge now).2 with hits := c.hits + 1 }
  | joins {l : Load κ φ} (opened : c.closed = false) (mem : l ∈ c.loads) (key_eq : l.key = key)
      (flight_eq : l.flight = flight) :
      Requested now key flight caller c (.waits l.id false)
        { (c.purge now).2 with loads := c.loads.map (·.joinedBy l.id caller) }
  | starts (opened : c.closed = false) (free : ∀ l ∈ c.loads, l.key = key → l.flight ≠ flight) :
      Requested now key flight caller c (.waits c.nextLoad true)
        { (c.purge now).2 with
          misses := c.misses + 1
          nextLoad := c.nextLoad + 1
          loads := c.loads ++ [⟨c.nextLoad, key, flight, [caller]⟩] }

theorem get_purge [DecidableEq κ] (now : Float) (key : κ) (c : Cache κ φ α) :
    (c.purge now).2.get now key
      = ((Entries.get? (c.purge now).2.entries key).bind CacheEntry.value, (c.purge now).2) := by
  unfold get
  cases h : Entries.get? (c.purge now).2.entries key with
  | none => rfl
  | some e =>
    have live := (mem_entries_purge.1 (Entries.mem_of_get? h)).2
    simp only [live, Bool.false_eq_true, if_false, Option.bind_some]

theorem request_spec [DecidableEq κ] [DecidableEq φ] (now : Float) (key : κ) (flight : φ) (caller : Nat) (c : Cache κ φ α) :
    Requested now key flight caller c (c.request now key flight caller).1
      (c.request now key flight caller).2 := by
  by_cases closed : c.closed = true
  · rw [request_of_closed closed]
    exact .refused closed
  · have opened : c.closed = false := by simpa using closed
    have parts : c.purge now = ((c.purge now).1, (c.purge now).2) := rfl
    unfold request
    rw [if_neg closed, parts]
    dsimp only
    -- What has expired was dropped just before, so that the lookup finds what is live or nothing.
    rw [get_purge]
    cases h : (Entries.get? (c.purge now).2.entries key).bind CacheEntry.value with
    | some v =>
      obtain ⟨e, he, hv⟩ := Option.bind_eq_some_iff.1 h
      obtain ⟨found, live⟩ := mem_entries_purge.1 (Entries.mem_of_get? he)
      exact .hit opened found live hv
    | none =>
      -- No value: the caller takes the load of its slot, if there is one.
      have same : (c.purge now).2.load? key flight = c.load? key flight := rfl
      cases hl : c.load? key flight with
      | some l =>
        have slot : l.key = key ∧ l.flight = flight := by simpa using List.find?_some hl
        simp only [same, hl]
        exact .joins opened (List.mem_of_find?_eq_some hl) slot.1 slot.2
      | none =>
        simp only [same, hl]
        refine .starts opened fun l hm hk hf => ?_
        have := List.find?_eq_none.1 hl l hm
        simp [hk, hf] at this

theorem Requested.setup {now : Float} {key : κ} {flight : φ} {caller : Nat} {reply : Reply α}
    (h : Requested now key flight caller c reply c') : c'.ttl = c.ttl ∧ c'.name = c.name := by
  cases h with
  | refused => exact ⟨rfl, rfl⟩
  | hit => exact ⟨rfl, rfl⟩
  | joins => exact ⟨rfl, rfl⟩
  | starts => exact ⟨rfl, rfl⟩

/-! ## 2. Ends of loads -/

theorem complete_of_none [DecidableEq κ] {id : Nat} (h : ∀ l ∈ c.loads, l.id ≠ id) (now : Float) (result : Outcome α) :
    c.complete now id result = ([], c) := by
  have none : c.loads.find? (·.id = id) = none := List.find?_eq_none.2 fun l hl => by simpa using h l hl
  simp [complete, none]

/-- A load that ends tells its callers, and its value is kept. -/
theorem complete_of_mem [DecidableEq κ] {l : Load κ φ} (ids : (c.loads.map Load.id).Nodup) (hl : l ∈ c.loads)
    (now : Float) (result : Outcome α) :
    c.complete now l.id result = (l.waiting.map (·, result), { c with
      entries := match result with
        | .ok v => Entries.put l.key ⟨v, now + c.ttl⟩ c.entries
        | .error _ => c.entries
      loads := c.loads.filter (·.id ≠ l.id) }) := by
  have found : c.loads.find? (·.id = l.id) = some l := Entries.find?_of_mem ids hl
  cases result with
  | ok v => simp only [complete, found]
  | error f => simp only [complete, found]

theorem loads_complete [DecidableEq κ] (now : Float) (id : Nat) (result : Outcome α) (c : Cache κ φ α) :
    (c.complete now id result).2.loads = c.loads.filter (·.id ≠ id) := by
  unfold complete
  split
  case h_2 => rfl
  case h_1 none =>
    refine (List.filter_eq_self.2 fun l hl => ?_).symm
    simpa using List.find?_eq_none.1 none l hl

theorem closed_complete [DecidableEq κ] (now : Float) (id : Nat) (result : Outcome α) (c : Cache κ φ α) :
    (c.complete now id result).2.closed = c.closed := by
  unfold complete
  split <;> rfl

/-- The end of a load leaves the cache its name and its time to live. -/
theorem setup_complete [DecidableEq κ] (now : Float) (id : Nat) (result : Outcome α) (c : Cache κ φ α) :
    (c.complete now id result).2.ttl = c.ttl ∧ (c.complete now id result).2.name = c.name := by
  unfold complete
  split
  case h_1 => exact ⟨rfl, rfl⟩
  case h_2 => exact ⟨rfl, rfl⟩

theorem told_of_settled {told : List (Nat × Outcome α)} {caller id : Nat} {starts : Bool} {v : α}
    (h : (Reply.waits id starts).settled told caller = .ok v) :
    Entries.get? told caller = some (.ok (some v)) := by
  unfold Reply.settled Reply.answer at h
  cases ht : Entries.get? told caller with
  | none =>
    rw [ht] at h
    cases h
  | some outcome =>
    rw [ht] at h
    cases outcome with
    | error f => cases h
    | ok value =>
      cases value with
      | none => cases h
      | some w =>
        obtain rfl : w = v := Except.ok.inj h
        rfl

/-! ## 3. Order among loads and entries -/

/-- Loads are told apart by their numbers and by their slots, and entries by their keys. -/
structure Tidy (c : Cache κ φ α) : Prop where
  ids : (c.loads.map Load.id).Nodup
  below : ∀ l ∈ c.loads, l.id < c.nextLoad
  slots : (c.loads.map fun l => (l.key, l.flight)).Nodup
  keys : (c.entries.map (·.1)).Nodup

theorem Tidy.load_ext (tidy : c.Tidy) {l m : Load κ φ} (hl : l ∈ c.loads) (hm : m ∈ c.loads)
    (same : l.id = m.id) : l = m := List.inj_on_of_nodup_map tidy.ids hl hm same

theorem Tidy.slot_ext (tidy : c.Tidy) {l m : Load κ φ} (hl : l ∈ c.loads) (hm : m ∈ c.loads)
    (key : l.key = m.key) (flight : l.flight = m.flight) : l = m :=
  List.inj_on_of_nodup_map tidy.slots hl hm (by rw [key, flight])

theorem Tidy.of_waiting (tidy : c.Tidy) {f : Load κ φ → Load κ φ}
    (same : ∀ l, (f l).id = l.id ∧ (f l).key = l.key ∧ (f l).flight = l.flight)
    (loads : c'.loads = c.loads.map f) (next : c'.nextLoad = c.nextLoad)
    (keys : (c'.entries.map (·.1)).Nodup) : c'.Tidy where
  ids := by
    have : c'.loads.map Load.id = c.loads.map Load.id := by simp [loads, same]
    rw [this]
    exact tidy.ids
  below := by
    rw [loads, next]
    intro l hl
    obtain ⟨m, hm, rfl⟩ := List.mem_map.1 hl
    rw [(same m).1]
    exact tidy.below m hm
  slots := by
    have : (c'.loads.map fun l => (l.key, l.flight)) = c.loads.map fun l => (l.key, l.flight) := by
      simp [loads, same]
    rw [this]
    exact tidy.slots
  keys := keys

theorem Tidy.of_entries (tidy : c.Tidy) (loads : c'.loads = c.loads) (next : c'.nextLoad = c.nextLoad)
    (keys : (c'.entries.map (·.1)).Nodup) : c'.Tidy :=
  tidy.of_waiting (fun l => ⟨rfl, rfl, rfl⟩) (f := id) (by simp [loads]) next keys

theorem Tidy.purge (tidy : c.Tidy) (now : Float) : (c.purge now).2.Tidy := by
  refine tidy.of_entries rfl rfl ?_
  -- Dropping entries leaves fewer of them, and no load is touched.
  have live : (c.purge now).2.entries = c.entries.filter fun e => !e.2.isExpired now := by
    simp [Cache.purge, List.partition_eq_filter_filter]
    rfl
  rw [live]
  exact Entries.nodup_filter tidy.keys _

theorem joinedBy_same (id caller : Nat) (l : Load κ φ) :
    (l.joinedBy id caller).id = l.id ∧ (l.joinedBy id caller).key = l.key ∧
      (l.joinedBy id caller).flight = l.flight := by
  unfold Load.joinedBy
  split
  case isTrue => exact ⟨rfl, rfl, rfl⟩
  case isFalse => exact ⟨rfl, rfl, rfl⟩

theorem Requested.tidy {now : Float} {key : κ} {flight : φ} {caller : Nat} {reply : Reply α}
    (h : Requested now key flight caller c reply c') (tidy : c.Tidy) : c'.Tidy := by
  have keys := (tidy.purge now).keys
  cases h with
  | refused => exact tidy
  | hit => exact tidy.of_entries rfl rfl keys
  | joins => exact tidy.of_waiting (joinedBy_same _ caller) rfl rfl keys
  | starts opened free =>
    -- The new load has the next number, and nobody had its slot.
    refine ⟨?_, ?_, ?_, keys⟩
    · show ((c.loads ++ [_]).map Load.id).Nodup
      rw [List.map_append, List.nodup_append]
      refine ⟨tidy.ids, by simp, fun a ha b hb he => ?_⟩
      obtain ⟨l, hl, rfl⟩ := List.mem_map.1 ha
      have lt := tidy.below l hl
      rw [List.map_singleton, List.mem_singleton] at hb
      rw [hb] at he
      exact absurd he (Nat.ne_of_lt lt)
    · intro l hl
      rcases List.mem_append.1 hl with hl | hl
      · exact Nat.lt_succ_of_lt (tidy.below l hl)
      · rw [List.mem_singleton.1 hl]
        exact Nat.lt_succ_self _
    · show ((c.loads ++ [_]).map fun l : Load κ φ => (l.key, l.flight)).Nodup
      rw [List.map_append, List.nodup_append]
      refine ⟨tidy.slots, by simp, fun a ha b hb he => ?_⟩
      obtain ⟨l, hl, rfl⟩ := List.mem_map.1 ha
      rw [List.map_singleton, List.mem_singleton] at hb
      rw [hb] at he
      obtain ⟨key_eq, flight_eq⟩ := Prod.mk.inj he
      exact free l hl key_eq flight_eq

theorem Tidy.complete [DecidableEq κ] (tidy : c.Tidy) (now : Float) (id : Nat) (result : Outcome α) :
    (c.complete now id result).2.Tidy := by
  -- The end of a load that is not under way is no event.
  by_cases h : ∃ l ∈ c.loads, l.id = id
  · obtain ⟨l, hl, rfl⟩ := h
    rw [complete_of_mem tidy.ids hl]
    refine ⟨tidy.ids.sublist (List.filter_sublist.map _), ?_,
      tidy.slots.sublist (List.filter_sublist.map _), ?_⟩
    · exact fun m hm => tidy.below m (List.mem_filter.1 hm).1
    · cases result with
      | ok v => exact Entries.nodup_put tidy.keys _ _
      | error => exact tidy.keys
  · rw [complete_of_none (fun l hl he => h ⟨l, hl, he⟩)]
    exact tidy

theorem Tidy.giveUp (tidy : c.Tidy) (caller : Nat) : (c.giveUp caller).Tidy :=
  tidy.of_waiting (f := fun l => { l with waiting := l.waiting.filter (· ≠ caller) })
    (fun _ => ⟨rfl, rfl, rfl⟩) rfl rfl tidy.keys

theorem Tidy.invalidate [DecidableEq κ] (tidy : c.Tidy) (key : κ) : (c.invalidate key).Tidy :=
  tidy.of_entries rfl rfl (Entries.nodup_filter tidy.keys _)

theorem tidy_empty (ttl : Float) (name : Text) :
    (⟨name, ttl, [], [], 0, false, 0, 0⟩ : Cache κ φ α).Tidy where
  ids := List.nodup_nil
  below := by simp
  slots := List.nodup_nil
  keys := List.nodup_nil

/-! ## 4. Live values -/

section Live

variable [DecidableEq κ] {now : Float} {key : κ} {v : α}

/-- The value under a key, unless its entry has expired. -/
def live? (now : Float) (key : κ) (c : Cache κ φ α) : Option α :=
  ((Entries.get? c.entries key).filter fun e => !e.isExpired now).bind CacheEntry.value

theorem get?_purge (tidy : c.Tidy) (now : Float) (key : κ) :
    Entries.get? (c.purge now).2.entries key = (Entries.get? c.entries key).filter fun e => !e.isExpired now := by
  have live : (c.purge now).2.entries = c.entries.filter fun e => !e.2.isExpired now := by
    simp [purge, List.partition_eq_filter_filter]
    rfl
  rw [live]
  exact Entries.get?_filter tidy.keys (fun e => !e.isExpired now) key

theorem live?_purge (tidy : c.Tidy) (now : Float) (key : κ) :
    (c.purge now).2.live? now key = c.live? now key := by
  unfold live?
  rw [get?_purge tidy, Option.filter_filter]
  simp only [Bool.and_self]

theorem live?_of_mem (tidy : c.Tidy) {e : CacheEntry α} (found : (key, e) ∈ c.entries)
    (live : e.isExpired now = false) : c.live? now key = e.value := by
  unfold live?
  rw [Entries.get?_of_mem tidy.keys found, Option.filter_some, live]
  rfl

/-- A live value answers a request. -/
theorem request_of_live [DecidableEq φ] (tidy : c.Tidy) (opened : c.closed = false)
    (live : c.live? now key = some v) (flight : φ) (caller : Nat) :
    (c.request now key flight caller).1 = .hit v := by
  have found : (Entries.get? (c.purge now).2.entries key).bind CacheEntry.value = some v := by
    rw [get?_purge tidy]
    exact live
  have parts : c.purge now = ((c.purge now).1, (c.purge now).2) := rfl
  unfold request
  rw [opened, if_neg Bool.false_ne_true, parts]
  dsimp only
  rw [get_purge, found]

theorem live?_of_waits [DecidableEq φ] (tidy : c.Tidy) (opened : c.closed = false) {flight : φ} {caller id : Nat}
    {starts : Bool} (h : (c.request now key flight caller).1 = .waits id starts) : c.live? now key = none := by
  cases live : c.live? now key with
  | none => rfl
  | some v =>
    rw [request_of_live tidy opened live] at h
    cases h

theorem Requested.live?_of_hit {flight : φ} {caller : Nat} (h : Requested now key flight caller c (.hit v) c')
    (tidy : c.Tidy) : c.live? now key = some v := by
  cases h with
  | hit opened found live value => exact (live?_of_mem tidy found live).trans value

/-- A request drops no live value. -/
theorem Requested.live?_eq {flight : φ} {caller : Nat} {reply : Reply α}
    (h : Requested now key flight caller c reply c') (tidy : c.Tidy) (other : κ) :
    c'.live? now other = c.live? now other := by
  have purged := live?_purge tidy now other
  cases h with
  | refused => rfl
  | hit => exact purged
  | joins => exact purged
  | starts => exact purged

/-- The end of a load changes what is found under its own key only, and only if there is a value. -/
theorem live?_complete {l : Load κ φ} (tidy : c.Tidy) (hl : l ∈ c.loads) (now : Float) (result : Outcome α)
    (key : κ) : (c.complete now l.id result).2.live? now key = c.live? now key ∨
      key = l.key ∧ ((c.complete now l.id result).2.live? now key = none ∨
        ∃ v, result = .ok v ∧ (c.complete now l.id result).2.live? now key = v) := by
  rw [complete_of_mem tidy.ids hl]
  cases result with
  | error f => exact .inl rfl
  | ok v =>
    unfold live?
    dsimp only
    rw [Entries.get?_put]
    by_cases same : key = l.key
    · refine .inr ⟨same, ?_⟩
      rw [if_pos same, Option.filter_some]
      split
      case isTrue => exact .inr ⟨v, rfl, rfl⟩
      case isFalse => exact .inl rfl
    · rw [if_neg same]
      exact .inl rfl

end Live

end SealedFields.Cache
