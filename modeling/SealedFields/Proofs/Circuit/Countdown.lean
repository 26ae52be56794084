import SealedFields.Circuit.Order
import SealedFields.Proofs.Circuit.Schedule

/-!
# Counting down

Which index may be taken next is told by counters and a pool of ready indices. What that comes to can be
said without them: each time the first pending index whose needs are done. The two agree, because every
counter shows how many distinct needs are still open, so that it gets to zero with the last of them.
-/

namespace SealedFields

namespace Countdown

variable {needs : Nat → List Nat} {count i k : Nat} {done : List Nat} {q : Countdown}

/-! ## 1. Open needs -/

/-- What `k` needs and is not done, each need once. -/
def unmet (needs : Nat → List Nat) (done : List Nat) (k : Nat) : List Nat :=
  (needs k).eraseDups.filter (!done.contains ·)

/-- What follows the head is filtered before it is looked at, so that the recursion is on the length. -/
theorem nodup_eraseDups (l : List Nat) : l.eraseDups.Nodup := by
  cases l with
  | nil => exact List.nodup_nil
  | cons a l =>
    rw [List.eraseDups_cons, List.nodup_cons]
    constructor
    · simp [List.mem_eraseDups]
    · exact nodup_eraseDups _
termination_by l.length
decreasing_by
  have := List.length_filter_le (fun b => !b == a) l
  simp only [List.length_cons]
  omega

theorem mem_unmet {j : Nat} : j ∈ unmet needs done k ↔ j ∈ needs k ∧ j ∉ done := by
  simp [unmet, List.mem_eraseDups]

theorem nodup_unmet : (unmet needs done k).Nodup := (nodup_eraseDups _).filter _

theorem length_unmet_eq_zero_iff :
    (unmet needs done k).length = 0 ↔ ∀ j ∈ needs k, j ∈ done := by
  rw [List.length_eq_zero_iff, List.eq_nil_iff_forall_not_mem]
  simp only [mem_unmet, not_and, not_not]

/-- One thing more being done closes one need of whatever needs it, however often that is said. -/
theorem length_unmet_cons (fresh : i ∉ done) :
    (unmet needs (i :: done) k).length =
      if i ∈ needs k then (unmet needs done k).length - 1 else (unmet needs done k).length := by
  have step : unmet needs (i :: done) k = (unmet needs done k).erase i := by
    rw [nodup_unmet.erase_eq_filter, unmet, unmet, List.filter_filter]
    apply List.filter_congr
    intro j _
    by_cases h : j = i <;> simp [h]
  rw [step, List.length_erase]
  by_cases h : i ∈ needs k
  · rw [if_pos h, if_pos (mem_unmet.2 ⟨h, fresh⟩)]
  · rw [if_neg h, if_neg (fun mem => h (mem_unmet.1 mem).1)]

/-! ## 2. Releasing -/

theorem length_release : (q.release i).waiting.length = q.waiting.length := List.length_set

theorem getD_release (hi : i < q.waiting.length) :
    (q.release i).waiting.getD k 0 =
      if k = i then q.waiting.getD k 0 - 1 else q.waiting.getD k 0 := by
  by_cases h : k = i
  · subst h
    simp [release, List.getD_eq_getElem?_getD, hi]
  · simp [release, List.getD_eq_getElem?_getD, h, Ne.symm h]

theorem mem_ready_release :
    k ∈ (q.release i).ready ↔ k ∈ q.ready ∨ k = i ∧ q.waiting.getD k 0 - 1 = 0 := by
  unfold release
  by_cases h : q.waiting.getD i 0 - 1 = 0
  · simp only [h, if_true, List.mem_cons]
    constructor
    · rintro (rfl | mem)
      · exact .inr ⟨rfl, h⟩
      · exact .inl mem
    · rintro (mem | ⟨rfl, -⟩)
      · exact .inr mem
      · exact .inl rfl
  · simp only [h, if_false]
    constructor
    · exact .inl
    · rintro (mem | ⟨rfl, zero⟩)
      · exact mem
      · exact absurd zero h

variable {js : List Nat}

theorem length_releases : (js.foldl release q).waiting.length = q.waiting.length := by
  induction js generalizing q with
  | nil => rfl
  | cons j js ih => rw [List.foldl_cons, ih, length_release]

theorem getD_releases (distinct : js.Nodup) (within : ∀ j ∈ js, j < q.waiting.length) :
    (js.foldl release q).waiting.getD k 0 =
      if k ∈ js then q.waiting.getD k 0 - 1 else q.waiting.getD k 0 := by
  induction js generalizing q with
  | nil => simp
  | cons j js ih =>
    obtain ⟨away, distinct⟩ := List.nodup_cons.1 distinct
    rw [List.forall_mem_cons] at within
    rw [List.foldl_cons, ih distinct (by simpa only [length_release] using within.2),
      getD_release within.1]
    by_cases h : k = j
    · subst h
      rw [if_neg away, if_pos rfl, if_pos List.mem_cons_self]
    · simp only [List.mem_cons, h, false_or, if_false]

theorem mem_ready_releases (distinct : js.Nodup) (within : ∀ j ∈ js, j < q.waiting.length) :
    k ∈ (js.foldl release q).ready ↔ k ∈ q.ready ∨ k ∈ js ∧ q.waiting.getD k 0 - 1 = 0 := by
  induction js generalizing q with
  | nil => simp
  | cons j js ih =>
    obtain ⟨away, distinct⟩ := List.nodup_cons.1 distinct
    rw [List.forall_mem_cons] at within
    rw [List.foldl_cons, ih distinct (by simpa only [length_release] using within.2),
      mem_ready_release, getD_release within.1, List.mem_cons]
    -- The counter of `j` is not touched again.
    by_cases h : k = j
    · subst h
      simp [away]
    · simp [h]

theorem nodup_ready_releases (distinct : js.Nodup) (fresh : ∀ j ∈ js, j ∉ q.ready)
    (nodup : q.ready.Nodup) : (js.foldl release q).ready.Nodup := by
  induction js generalizing q with
  | nil => exact nodup
  | cons j js ih =>
    obtain ⟨away, distinct⟩ := List.nodup_cons.1 distinct
    rw [List.forall_mem_cons] at fresh
    rw [List.foldl_cons]
    apply ih distinct
    · intro k hk mem
      rcases mem_ready_release.1 mem with old | ⟨rfl, -⟩
      · exact fresh.2 k hk old
      · exact away hk
    · unfold release
      by_cases h : q.waiting.getD j 0 - 1 = 0
      · simpa only [h, if_true] using List.nodup_cons.2 ⟨fresh.1, nodup⟩
      · simpa only [h, if_false] using nodup

/-! ## 3. What the counters show -/

/-- With `done` taken, each counter shows how many needs are open, and the ready indices are those that
are not taken and have none. -/
structure Tracks (needs : Nat → List Nat) (count : Nat) (done : List Nat) (q : Countdown) : Prop where
  length : q.waiting.length = count
  waiting : ∀ k < count, q.waiting.getD k 0 = (unmet needs done k).length
  ready : ∀ k, k ∈ q.ready ↔ k < count ∧ k ∉ done ∧ ∀ j ∈ needs k, j ∈ done
  nodup : q.ready.Nodup
  closed : ∀ k ∈ done, ∀ j ∈ needs k, j ∈ done

theorem tracks_start : Tracks needs count [] (start needs count) := by
  have counter (k : Nat) (hk : k < count) :
      ((List.range count).map fun i => (needs i).eraseDups.length).getD k 0
        = (unmet needs [] k).length := by
    simp [List.getD_eq_getElem?_getD, hk, unmet]
  refine ⟨by simp [start], counter, fun k => ?_, List.nodup_range.filter _, by simp⟩
  simp only [start, List.mem_filter, List.mem_range, decide_eq_true_eq]
  constructor
  · rintro ⟨hk, zero⟩
    rw [counter k hk, length_unmet_eq_zero_iff] at zero
    exact ⟨hk, List.not_mem_nil, zero⟩
  · rintro ⟨hk, -, met⟩
    rw [counter k hk, length_unmet_eq_zero_iff]
    exact ⟨hk, met⟩

theorem mem_dependents : k ∈ dependents needs count i ↔ k < count ∧ i ∈ needs k := by
  simp [dependents]

/-- The last open need of an index is met exactly if its counter is released to zero. -/
theorem Tracks.released_iff (h : Tracks needs count done q) (fresh : i ∉ done)
    (hk : k ∈ dependents needs count i) :
    q.waiting.getD k 0 - 1 = 0 ↔ ∀ j ∈ needs k, j ∈ i :: done := by
  obtain ⟨lt, need⟩ := mem_dependents.1 hk
  rw [h.waiting k lt, ← length_unmet_eq_zero_iff, length_unmet_cons fresh, if_pos need]

theorem Tracks.take (h : Tracks needs count done q) (hi : i ∈ q.ready) :
    Tracks needs count (i :: done) (q.take needs count i) := by
  obtain ⟨inRange, fresh, met⟩ := (h.ready i).1 hi
  have distinct : (dependents needs count i).Nodup := List.nodup_range.filter _
  have within : ∀ k ∈ dependents needs count i,
      k < ({ q with ready := q.ready.erase i } : Countdown).waiting.length := by
    intro k hk
    have lt := (mem_dependents.1 hk).1
    rwa [← h.length] at lt
  -- Whatever needs `i` was neither taken nor ready before.
  have later : ∀ k ∈ dependents needs count i, k ∉ done ∧ k ≠ i := by
    intro k hk
    have need := (mem_dependents.1 hk).2
    constructor
    · exact fun taken => fresh (h.closed k taken i need)
    · rintro rfl
      exact fresh (met k need)
  constructor
  case length => exact length_releases.trans h.length
  case waiting =>
    intro k hk
    rw [Countdown.take, getD_releases distinct within, length_unmet_cons fresh]
    simp only [mem_dependents, hk, true_and, h.waiting k hk]
  case ready =>
    intro k
    rw [Countdown.take, mem_ready_releases distinct within, h.nodup.mem_erase_iff, h.ready]
    simp only [List.mem_cons, not_or]
    constructor
    · rintro (⟨other, hk, away, met'⟩ | ⟨hk, zero⟩)
      · exact ⟨hk, ⟨other, away⟩, fun j hj => .inr (met' j hj)⟩
      · have met' := (h.released_iff fresh hk).1 zero
        exact ⟨(mem_dependents.1 hk).1, (later k hk).symm, fun j hj => List.mem_cons.1 (met' j hj)⟩
    · rintro ⟨hk, ⟨other, away⟩, met'⟩
      by_cases need : i ∈ needs k
      · right
        have dependent := mem_dependents.2 ⟨hk, need⟩
        exact ⟨dependent, (h.released_iff fresh dependent).2 fun j hj => List.mem_cons.2 (met' j hj)⟩
      · left
        refine ⟨other, hk, away, fun j hj => (met' j hj).resolve_left ?_⟩
        rintro rfl
        exact need hj
  case nodup =>
    refine nodup_ready_releases distinct (fun k hk mem => ?_) (h.nodup.erase i)
    have ready := (h.ready k).1 (List.mem_of_mem_erase mem)
    exact fresh (ready.2.2 i (mem_dependents.1 hk).2)
  case closed =>
    intro k hk j hj
    rcases List.mem_cons.1 hk with rfl | hk
    · exact List.mem_cons_of_mem _ (met j hj)
    · exact List.mem_cons_of_mem _ (h.closed k hk j hj)

/-! ## 4. Draining -/

/-- In an ascending list, what is found first is the least. -/
theorem find?_eq_min? {l r : List Nat} {p : Nat → Bool} (ascending : l.Pairwise (· < ·))
    (same : ∀ k, k ∈ r ↔ k ∈ l ∧ p k = true) : l.find? p = r.min? := by
  cases found : l.find? p with
  | none =>
    have empty : r = [] := by
      apply List.eq_nil_iff_forall_not_mem.2
      intro k hk
      exact List.find?_eq_none.1 found k ((same k).1 hk).1 ((same k).1 hk).2
    rw [empty, List.min?_nil]
  | some i =>
    symm
    rw [List.min?_eq_some_iff]
    constructor
    · exact (same i).2 ⟨List.mem_of_find?_eq_some found, List.find?_some found⟩
    · intro k hk
      exact Circuit.le_of_find? ascending found ((same k).1 hk).1 ((same k).1 hk).2

/-- The indices that are not taken, in ascending order. -/
def pending (count : Nat) (done : List Nat) : List Nat :=
  (List.range count).filter (!done.contains ·)

theorem pairwise_pending : (pending count done).Pairwise (· < ·) := List.pairwise_lt_range.filter _

theorem erase_pending : (pending count done).erase i = pending count (i :: done) := by
  have nodup : (pending count done).Nodup := List.nodup_range.filter _
  rw [nodup.erase_eq_filter, pending, pending, List.filter_filter]
  apply List.filter_congr
  intro j _
  by_cases h : j = i <;> simp [h]

theorem Tracks.mem_ready_iff (h : Tracks needs count done q) :
    k ∈ q.ready ↔ k ∈ pending count done ∧ (needs k).all done.contains = true := by
  rw [h.ready]
  simp [pending, and_assoc]

theorem Tracks.stuck_eq (h : Tracks needs count done q) (empty : q.ready = []) :
    q.stuck = pending count done := by
  rw [stuck, pending, h.length]
  apply List.filter_congr
  intro k hk
  have lt := List.mem_range.1 hk
  rw [h.waiting k lt]
  by_cases taken : k ∈ done
  · have zero := length_unmet_eq_zero_iff.2 (h.closed k taken)
    simp [zero, taken]
  · -- An index that is neither taken nor ready has an open need.
    have unready : k ∉ q.ready := by simp [empty]
    have positive : 0 < (unmet needs done k).length := by
      apply Nat.pos_of_ne_zero
      intro zero
      exact unready ((h.ready k).2 ⟨lt, taken, length_unmet_eq_zero_iff.1 zero⟩)
    simp [positive, taken]

/-- Counting down takes the same order as going through the pending indices. -/
theorem Tracks.drain_eq (h : Tracks needs count done q) {steps : Nat}
    (enough : (pending count done).length ≤ steps) :
    drain needs count steps q = Circuit.schedule needs steps (pending count done) done := by
  induction steps generalizing done q with
  | zero =>
    have none : pending count done = [] := List.length_eq_zero_iff.1 (Nat.le_zero.1 enough)
    have empty : q.ready = [] := by
      apply List.eq_nil_iff_forall_not_mem.2
      intro k hk
      have mem := (h.mem_ready_iff.1 hk).1
      rw [none] at mem
      exact List.not_mem_nil mem
    rw [drain, Circuit.schedule, h.stuck_eq empty]
  | succ steps ih =>
    rw [drain, Circuit.schedule, find?_eq_min? pairwise_pending fun k => h.mem_ready_iff]
    cases least : q.ready.min? with
    | none => simp only [h.stuck_eq (List.min?_eq_none_iff.1 least)]
    | some i =>
      have hi : i ∈ q.ready := List.min?_mem least
      have fewer := List.length_erase_of_mem (h.mem_ready_iff.1 hi).1
      rw [erase_pending] at fewer
      simp only [erase_pending, ih (h.take hi) (by omega)]

/-- The whole countdown, from the start on. -/
theorem drain_start : drain needs count count (start needs count)
    = Circuit.schedule needs count (List.range count) [] := by
  have all : pending count [] = List.range count := by simp [pending]
  have tracks : Tracks needs count [] (start needs count) := tracks_start
  rw [← all]
  exact tracks.drain_eq (by simp [all])

end Countdown

end SealedFields
