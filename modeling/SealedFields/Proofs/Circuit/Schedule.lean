import Mathlib.Data.List.Lex
import Mathlib.Data.List.Nodup

/-!
# Scheduling

What it is to put indices in order: to take, each time, the first pending index whose needs are done.
This loses no index, takes each one after its needs, and leaves stuck exactly the indices whose needs lead
back to something stuck. Of all orders that respect the needs it is the least.
-/

namespace SealedFields.Circuit

/-- Runs through `pending`, taking each time the first index whose needs are done. Answers the order
taken, and the indices that were never ready. -/
def schedule (needs : Nat → List Nat) : (steps : Nat) → (pending done : List Nat) → List Nat × List Nat
  | 0, pending, _ => ([], pending)
  | steps + 1, pending, done =>
    match pending.find? fun i => (needs i).all done.contains with
    | none => ([], pending)
    | some i =>
      let (order, stuck) := schedule needs steps (pending.erase i) (i :: done)
      (i :: order, stuck)

/-- Every index comes after its needs, those in `done` being met from the start. -/
inductive InOrder (needs : Nat → List Nat) : (done order : List Nat) → Prop
  | nil {done : List Nat} : InOrder needs done []
  | cons {done order : List Nat} {i : Nat} (ready : ∀ j ∈ needs i, j ∈ done)
      (rest : InOrder needs (i :: done) order) : InOrder needs done (i :: order)

variable {needs : Nat → List Nat} {steps : Nat} {pending done order stuck : List Nat}

/-! ## 1. What is taken -/

/-- What a schedule does: it stops where nothing is ready, or takes a ready index and goes on. -/
theorem schedule_succ_cases (h : schedule needs (steps + 1) pending done = (order, stuck)) :
    ((∀ i ∈ pending, ∃ j ∈ needs i, j ∉ done) ∧ order = [] ∧ stuck = pending) ∨
    ∃ i rest, i ∈ pending ∧ (∀ j ∈ needs i, j ∈ done) ∧ order = i :: rest ∧
      schedule needs steps (pending.erase i) (i :: done) = (rest, stuck) := by
  rw [schedule] at h
  split at h
  case h_1 none =>
    left
    obtain ⟨rfl, rfl⟩ := Prod.mk.inj h
    refine ⟨fun i hi => ?_, rfl, rfl⟩
    have := List.find?_eq_none.1 none i hi
    simpa using this
  case h_2 i found =>
    right
    have ready := List.find?_some found
    obtain ⟨rest, stuck', heq⟩ : ∃ rest stuck',
        schedule needs steps (pending.erase i) (i :: done) = (rest, stuck') := ⟨_, _, rfl⟩
    rw [heq] at h
    obtain ⟨rfl, rfl⟩ := Prod.mk.inj h
    exact ⟨i, rest, List.mem_of_find?_eq_some found, by simpa using ready, rfl, heq⟩

/-- No index is lost or made up. -/
theorem schedule_perm (h : schedule needs steps pending done = (order, stuck)) :
    (order ++ stuck).Perm pending := by
  -- Induction on the steps left, as in the recursion of the schedule.
  induction steps generalizing pending done order with
  | zero =>
    obtain ⟨rfl, rfl⟩ := Prod.mk.inj h
    exact .refl _
  | succ steps ih =>
    obtain ⟨-, rfl, rfl⟩ | ⟨i, rest, hi, -, rfl, hrest⟩ := schedule_succ_cases h
    · exact .refl _
    · exact ((ih hrest).cons i).trans (List.perm_cons_erase hi).symm

theorem schedule_inOrder (h : schedule needs steps pending done = (order, stuck)) :
    InOrder needs done order := by
  induction steps generalizing pending done order with
  | zero =>
    obtain ⟨rfl, -⟩ := Prod.mk.inj h
    exact .nil
  | succ steps ih =>
    obtain ⟨-, rfl, -⟩ | ⟨i, rest, -, ready, rfl, hrest⟩ := schedule_succ_cases h
    · exact .nil
    · exact .cons ready (ih hrest)

/-- An order respects the needs if all that an index needs is done or stands before it. -/
theorem inOrder_iff : InOrder needs done order ↔
    ∀ before i rest, order = before ++ i :: rest → ∀ j ∈ needs i, j ∈ done ∨ j ∈ before := by
  constructor
  · intro h
    induction h with
    | nil =>
      intro before i rest split
      simp at split
    | @cons done order first ready _ ih =>
      intro before i rest split j hj
      cases before with
      | nil =>
        obtain ⟨rfl, -⟩ := List.cons.inj split
        exact .inl (ready j hj)
      | cons head before =>
        obtain ⟨rfl, tail⟩ := List.cons.inj split
        rcases ih before i rest tail j hj with met | earlier
        · rcases List.mem_cons.1 met with rfl | met
          · exact .inr List.mem_cons_self
          · exact .inl met
        · exact .inr (List.mem_cons_of_mem _ earlier)
  · intro h
    induction order generalizing done with
    | nil => exact .nil
    | cons first order ih =>
      constructor
      · intro j hj
        exact (h [] first order rfl j hj).resolve_right List.not_mem_nil
      · apply ih
        intro before i rest split j hj
        rcases h (first :: before) i rest (by rw [split]; rfl) j hj with met | earlier
        · exact .inl (List.mem_cons_of_mem _ met)
        · rcases List.mem_cons.1 earlier with rfl | earlier
          · exact .inl List.mem_cons_self
          · exact .inr earlier

/-! ## 2. The least order -/

/-- In an ascending list, what is found first is the least. -/
theorem le_of_find? {l : List Nat} {p : Nat → Bool} {i : Nat} (ascending : l.Pairwise (· < ·))
    (found : l.find? p = some i) {j : Nat} (hj : j ∈ l) (hp : p j = true) : i ≤ j := by
  obtain ⟨-, before, after, rfl, none⟩ := List.find?_eq_some_iff_append.1 found
  rcases List.mem_append.1 hj with early | late
  · have := none j early
    simp [hp] at this
  · rcases List.mem_cons.1 late with rfl | late
    · exact Nat.le_refl j
    · have above := (List.pairwise_append.1 ascending).2.1
      exact Nat.le_of_lt ((List.pairwise_cons.1 above).1 j late)

/-- A schedule that begins with `i` has no smaller index to begin with. -/
theorem schedule_head_le {i : Nat} {rest : List Nat} (ascending : pending.Pairwise (· < ·))
    (h : schedule needs (steps + 1) pending done = (i :: rest, stuck)) {j : Nat} (hj : j ∈ pending)
    (ready : ∀ k ∈ needs j, k ∈ done) : i ≤ j := by
  rw [schedule] at h
  split at h
  case h_1 => cases h
  case h_2 first found =>
    obtain rfl : first = i := (List.cons.inj (Prod.mk.inj h).1).1
    exact le_of_find? ascending found hj (by simpa using ready)

/-- Any order of the pending indices that respects the needs is the one taken, or comes after it where
lists are compared by their first difference. -/
theorem schedule_least (ascending : pending.Pairwise (· < ·))
    (h : schedule needs steps pending done = (order, [])) {other : List Nat}
    (perm : other.Perm pending) (inOrder : InOrder needs done other) :
    order = other ∨ List.Lex (· < ·) order other := by
  induction steps generalizing pending done order other with
  | zero =>
    obtain ⟨rfl, rfl⟩ := Prod.mk.inj h
    exact .inl (List.perm_nil.1 perm).symm
  | succ steps ih =>
    obtain ⟨-, rfl, rfl⟩ | ⟨i, rest, hi, -, rfl, hrest⟩ := schedule_succ_cases h
    · exact .inl (List.perm_nil.1 perm).symm
    · -- The other order begins with an index that is ready too, hence with `i` or a greater one.
      cases inOrder with
      | nil => exact absurd hi (by rw [List.nil_perm.1 perm]; exact List.not_mem_nil)
      | @cons _ tail j ready inOrder =>
        have hj : j ∈ pending := perm.mem_iff.1 List.mem_cons_self
        rcases Nat.eq_or_lt_of_le (schedule_head_le ascending h hj ready) with rfl | lt
        · have tails : tail.Perm (pending.erase i) :=
            (perm.trans (List.perm_cons_erase hi)).cons_inv
          rcases ih (ascending.sublist List.erase_sublist) hrest tails inOrder with rfl | less
          · exact .inl rfl
          · exact .inr (.cons less)
        · exact .inr (.rel lt)

/-- What is in order already keeps its order. -/
theorem schedule_of_inOrder (enough : pending.length ≤ steps) (inOrder : InOrder needs done pending) :
    schedule needs steps pending done = (pending, []) := by
  induction inOrder generalizing steps with
  | nil => cases steps <;> rfl
  | @cons done rest i ready _ ih =>
    cases steps with
    | zero => simp at enough
    | succ steps =>
      have found : (i :: rest).find? (fun i => (needs i).all done.contains) = some i :=
        List.find?_cons_of_pos (by simpa using ready)
      rw [schedule, found]
      simp only [List.erase_cons_head, ih (Nat.le_of_succ_le_succ enough)]

/-! ## 3. What is stuck -/

/-- The stuck indices keep the order in which they were pending. -/
theorem schedule_stuck_sublist (h : schedule needs steps pending done = (order, stuck)) :
    stuck.Sublist pending := by
  induction steps generalizing pending done order with
  | zero =>
    obtain ⟨-, rfl⟩ := Prod.mk.inj h
    exact List.Sublist.refl _
  | succ steps ih =>
    obtain ⟨-, -, rfl⟩ | ⟨i, rest, -, -, -, hrest⟩ := schedule_succ_cases h
    · exact List.Sublist.refl _
    · exact (ih hrest).trans List.erase_sublist

/-- A stuck index needs something that was never done. -/
theorem schedule_stuck (enough : pending.length ≤ steps)
    (h : schedule needs steps pending done = (order, stuck)) :
    ∀ i ∈ stuck, ∃ j ∈ needs i, j ∉ done ∧ j ∉ order := by
  induction steps generalizing pending done order with
  | zero =>
    obtain ⟨-, rfl⟩ := Prod.mk.inj h
    rw [List.length_eq_zero_iff.1 (Nat.le_zero.1 enough)]
    intro i hi
    exact absurd hi List.not_mem_nil
  | succ steps ih =>
    obtain ⟨unmet, rfl, rfl⟩ | ⟨i, rest, hi, -, rfl, hrest⟩ := schedule_succ_cases h
    · intro i hi
      obtain ⟨j, hj, hd⟩ := unmet i hi
      exact ⟨j, hj, hd, List.not_mem_nil⟩
    · -- There is one index less to place and one step less to place it in, so that there are still enough.
      have shorter := List.length_erase_of_mem hi
      intro k hk
      obtain ⟨j, hj, hd, ho⟩ := ih (by omega) hrest k hk
      rw [List.mem_cons, not_or] at hd
      exact ⟨j, hj, hd.2, by simp [hd.1, ho]⟩

theorem InOrder.acc (h : InOrder needs done order) (start : ∀ j ∈ done, Acc (· ∈ needs ·) j) :
    ∀ i ∈ order, Acc (· ∈ needs ·) i := by
  induction h with
  | nil => exact fun i hi => absurd hi List.not_mem_nil
  | @cons done order i ready _ ih =>
    -- The needs of `i` are done, and what is done is accessible.
    have here : Acc (· ∈ needs ·) i := Acc.intro i fun j hj => start j (ready j hj)
    rw [List.forall_mem_cons] at ih ⊢
    exact ⟨here, ih ⟨here, start⟩⟩

/-- Stuck are the indices from which a chain of needs goes on for ever. -/
theorem mem_stuck_iff (enough : pending.length ≤ steps)
    (closed : ∀ i ∈ pending, ∀ j ∈ needs i, j ∈ pending)
    (h : schedule needs steps pending [] = (order, stuck)) {i : Nat} :
    i ∈ stuck ↔ i ∈ pending ∧ ¬ Acc (· ∈ needs ·) i := by
  -- Order and stuck indices together are what was pending, and nothing is both.
  have perm := schedule_perm h
  have whole (j : Nat) : j ∈ order ∨ j ∈ stuck ↔ j ∈ pending := by
    rw [← List.mem_append, perm.mem_iff]
  constructor
  · intro hi
    refine ⟨(whole i).1 (.inr hi), fun hacc => ?_⟩
    -- A stuck index needs another stuck one, which an accessible index cannot do for ever.
    induction hacc with
    | intro i _ ih =>
      obtain ⟨j, hj, -, ho⟩ := schedule_stuck enough h i hi
      have pend := closed i ((whole i).1 (.inr hi)) j hj
      exact ih j hj (((whole j).2 pend).resolve_left ho)
  · rintro ⟨pend, unfounded⟩
    apply ((whole i).2 pend).resolve_left
    intro ho
    exact unfounded ((schedule_inOrder h).acc (by simp) i ho)

/-- Nothing is stuck exactly if no chain of needs goes on for ever. -/
theorem schedule_drains_iff (enough : pending.length ≤ steps)
    (closed : ∀ i ∈ pending, ∀ j ∈ needs i, j ∈ pending)
    (h : schedule needs steps pending [] = (order, stuck)) :
    stuck = [] ↔ ∀ i ∈ pending, Acc (· ∈ needs ·) i := by
  rw [List.eq_nil_iff_forall_not_mem]
  simp only [mem_stuck_iff enough closed h, not_and, not_not]

end SealedFields.Circuit
