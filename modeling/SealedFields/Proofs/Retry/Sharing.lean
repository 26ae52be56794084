import Mathlib.Data.List.Induction
import Mathlib.Logic.Function.Iterate
import SealedFields.Proofs.Retry.Notices
import SealedFields.Proofs.Retry.Suspended
import SealedFields.Proofs.Text.Encodings

/-!
# Sharing a retry policy

Jobs may run under one policy at the same time, each suspended while its call is under way or while it
waits. The policy has one label, of the job begun last, and a delay is drawn under the label that is there
when a call fails. So jobs decide nothing about each other but how long they wait: whatever the order of
their turns, each of them makes the calls, and ends with the result, of the same job run by itself. Where
delays have no jitter, or nobody else begins, the delays are the same too.
-/

namespace SealedFields.Retry

/-! ## 1. What a label decides -/

variable {c : Config} {a b : Text}

theorem exists_jitterUnit (h : a.isWellFormed = true) (attempt : Int) : ∃ u, jitterUnit a attempt = .ok u := by
  have whole : (a ++ (":" : Text) ++ Text.ofInt attempt).isWellFormed = true := by
    have colon : (":" : Text).isWellFormed = true := rfl
    have digits : (Text.ofInt attempt).isWellFormed = true := Text.isWellFormed_ofChars _
    simp only [Text.isWellFormed] at h colon digits ⊢
    rw [List.all_append, List.all_append, h, colon, digits]
    rfl
  obtain ⟨bs, hbs⟩ := Text.exists_utf8? whole
  unfold jitterUnit
  rw [hbs]
  exact ⟨_, rfl⟩

/-- Only the jitter depends on a label. -/
theorem delay_eq_of_unjittered (plain : c.strategy ≠ some .exponentialJitter) (a b : Text) (attempt : Int) :
    c.delay a attempt = c.delay b attempt := by
  have same : c.rawDelay a attempt = c.rawDelay b attempt := by
    unfold Config.rawDelay
    cases h : c.strategy with
    | none => rfl
    | some s =>
      cases s with
      | constant | linear | exponential => rfl
      | exponentialJitter => exact absurd h plain
  unfold Config.delay
  rw [same]

/-- A jitter that is not drawn from the name needs none. -/
theorem exists_spread (h : a.isWellFormed = true) (attempt : Int) (grown : Float) :
    ∃ x, c.spread a attempt grown = .ok x := by
  obtain ⟨u, hu⟩ := exists_jitterUnit h attempt
  unfold Config.spread
  cases c.jitter attempt with
  | ofName =>
    dsimp only
    rw [hu]
    exact ⟨_, rfl⟩
  | random v => exact ⟨_, rfl⟩

/-- Under every label that can be encoded there is a delay, or under none. -/
theorem delay_alike (ha : a.isWellFormed = true) (hb : b.isWellFormed = true) (attempt : Int) :
    (∃ f, c.delay a attempt = .error f ∧ c.delay b attempt = .error f) ∨
      ∃ x y, c.delay a attempt = .ok x ∧ c.delay b attempt = .ok y := by
  by_cases jittered : c.strategy = some .exponentialJitter
  · unfold Config.delay Config.rawDelay
    rw [jittered]
    dsimp only
    cases power c.multiplier attempt with
    | error f => exact .inl ⟨f, rfl, rfl⟩
    | ok x =>
      obtain ⟨u, hu⟩ := exists_spread (c := c) ha attempt (c.baseDelay * x)
      obtain ⟨v, hv⟩ := exists_spread (c := c) hb attempt (c.baseDelay * x)
      dsimp only [bind, Except.bind]
      rw [hu, hv]
      exact .inr ⟨_, _, rfl, rfl⟩
  · rw [delay_eq_of_unjittered jittered a b]
    cases c.delay b attempt with
    | error f => exact .inl ⟨f, rfl, rfl⟩
    | ok x => exact .inr ⟨x, x, rfl, rfl⟩

/-- A retry is announced under all of them, too, or under none. -/
theorem announced_alike (ha : a.isWellFormed = true) (hb : b.isWellFormed = true) (attempt : Nat) (f : Failure) :
    (∃ g, c.announced a attempt f = .error g ∧ c.announced b attempt f = .error g) ∨
      ∃ x y, c.announced a attempt f = .ok x ∧ c.announced b attempt f = .ok y := by
  rw [announced_eq, announced_eq]
  rcases delay_alike (c := c) ha hb attempt with ⟨g, ea, eb⟩ | ⟨x, y, ea, eb⟩
  · rw [ea, eb]
    exact .inl ⟨g, rfl, rfl⟩
  · rw [ea, eb]
    cases c.tellable attempt f with
    | error g => exact .inl ⟨g, rfl, rfl⟩
    | ok _ => exact .inr ⟨x, y, rfl, rfl⟩

/-- Verdicts that differ at most in how long to wait. -/
inductive Verdict.Alike : Verdict → Verdict → Prop
  | giveUp (f : Failure) : Alike (.giveUp f) (.giveUp f)
  | wait (x y : Float) : Alike (.wait x) (.wait y)

theorem Verdict.Alike.refl (v : Verdict) : v.Alike v := by
  cases v with
  | giveUp f => exact .giveUp f
  | wait x => exact .wait x x

theorem verdict_alike (ha : a.isWellFormed = true) (hb : b.isWellFormed = true) (attempt : Nat) (f : Failure) :
    (c.verdict a attempt f).Alike (c.verdict b attempt f) := by
  cases retried : c.retries f.kind with
  | false =>
    rw [verdict_of_not_retries retried, verdict_of_not_retries retried]
    exact .giveUp f
  | true =>
    by_cases late : c.maxRetries ≤ attempt
    · rw [verdict_of_late late a b]
      exact .refl _
    · rw [verdict_of_early retried (Int.not_le.1 late), verdict_of_early retried (Int.not_le.1 late)]
      rcases announced_alike (c := c) ha hb attempt f with ⟨g, ea, eb⟩ | ⟨x, y, ea, eb⟩
      · rw [ea, eb]
        exact .giveUp g
      · rw [ea, eb]
        exact .wait x y

theorem verdict_eq_of_unjittered (plain : c.strategy ≠ some .exponentialJitter) (a b : Text) (attempt : Nat)
    (f : Failure) : c.verdict a attempt f = c.verdict b attempt f := by
  by_cases late : c.maxRetries ≤ attempt
  · exact verdict_of_late late a b
  · have same : c.announced a attempt f = c.announced b attempt f := by
      rw [announced_eq, announced_eq, delay_eq_of_unjittered plain a b]
    unfold Config.verdict
    rw [if_neg late, if_neg late, same]

/-! ## 2. Jobs -/

/-- Work whose calls answer by their numbers. -/
structure Job (α : Type) where
  name : Text
  answer : Nat → Except Failure α

inductive Stage (α : Type) where
  | fresh
  | calling (attempt : Nat)
  | waiting (next : Nat)
  | finished (result : Except Failure α)

/-- How many calls were made, and the waits there were. -/
structure Tally where
  calls : Nat
  delays : List Float

structure Run (α : Type) where
  stage : Stage α
  tally : Tally

def Run.new {α : Type} : Run α := ⟨.fresh, ⟨0, []⟩⟩

variable {α : Type}

/-- The next call is made, if one is left. -/
def Config.call (c : Config) (attempt : Nat) (t : Tally) : Run α :=
  if c.maxRetries < attempt then ⟨.finished (.error .noAttempt), t⟩
  else ⟨.calling attempt, { t with calls := t.calls + 1 }⟩

/-- After a failed call a job ends or waits. -/
def Verdict.next (attempt : Nat) (t : Tally) : Verdict → Run α
  | .giveUp f => ⟨.finished (.error f), t⟩
  | .wait delay => ⟨.waiting (attempt + 1), { t with delays := t.delays ++ [delay] }⟩

/-- A turn of a job: a call is made, or its answer arrives while the policy has the given label. -/
def Config.turn (c : Config) (j : Job α) (label : Text) (r : Run α) : Run α :=
  match r.stage with
  | .fresh => c.call 0 r.tally
  | .waiting next => c.call next r.tally
  | .calling attempt =>
    match j.answer attempt with
    | .ok a => ⟨.finished (.ok a), r.tally⟩
    | .error f => (c.verdict label attempt f).next attempt r.tally
  | .finished _ => r

def Run.isFresh (r : Run α) : Bool :=
  match r.stage with
  | .fresh => true
  | _ => false

/-- A job by itself, after so many turns. -/
def Config.alone (c : Config) (j : Job α) (turns : Nat) : Run α := (c.turn j j.name)^[turns] .new

variable {j : Job α} {r q : Run α}

theorem alone_succ (c : Config) (j : Job α) (n : Nat) : c.alone j (n + 1) = c.turn j j.name (c.alone j n) :=
  Function.iterate_succ_apply' ..

theorem turn_of_ok {attempt : Nat} {x : α} (h : j.answer attempt = .ok x) (label : Text) (t : Tally) :
    c.turn j label ⟨.calling attempt, t⟩ = ⟨.finished (.ok x), t⟩ := by
  unfold Config.turn
  dsimp only
  rw [h]

theorem turn_of_error {attempt : Nat} {f : Failure} (h : j.answer attempt = .error f) (label : Text)
    (t : Tally) : c.turn j label ⟨.calling attempt, t⟩ = (c.verdict label attempt f).next attempt t := by
  unfold Config.turn
  dsimp only
  rw [h]

theorem isFresh_turn (c : Config) (j : Job α) (label : Text) (r : Run α) : (c.turn j label r).isFresh = false := by
  have called (attempt : Nat) (t : Tally) : (c.call attempt t : Run α).isFresh = false := by
    unfold Config.call
    split <;> rfl
  obtain ⟨stage, t⟩ := r
  cases stage with
  | fresh => exact called 0 t
  | waiting next => exact called next t
  | finished result => rfl
  | calling attempt =>
    cases h : j.answer attempt with
    | ok a => rw [turn_of_ok h]; rfl
    | error f =>
      rw [turn_of_error h]
      cases c.verdict label attempt f <;> rfl

/-! ## 3. Jobs that differ in their waits -/

/-- Runs that differ at most in how long their waits were. -/
structure Run.Alike (r q : Run α) : Prop where
  stage_eq : r.stage = q.stage
  calls_eq : r.tally.calls = q.tally.calls
  waits_eq : r.tally.delays.length = q.tally.delays.length

theorem next_alike {v w : Verdict} (h : v.Alike w) {t u : Tally} (calls : t.calls = u.calls)
    (waits : t.delays.length = u.delays.length) (attempt : Nat) :
    (v.next attempt t : Run α).Alike (w.next attempt u) := by
  cases h with
  | giveUp f => exact ⟨rfl, calls, waits⟩
  | wait x y =>
    refine ⟨rfl, calls, ?_⟩
    show (t.delays ++ [x]).length = (u.delays ++ [y]).length
    rw [List.length_append, List.length_append, waits]
    rfl

theorem turn_alike (verdicts : r.isFresh = false → ∀ n f, (c.verdict a n f).Alike (c.verdict b n f))
    (h : r.Alike q) : (c.turn j a r).Alike (c.turn j b q) := by
  obtain ⟨stage, t⟩ := r
  obtain ⟨_, u⟩ := q
  obtain ⟨rfl, calls, waits⟩ := h
  have called (attempt : Nat) : (c.call attempt t : Run α).Alike (c.call attempt u) := by
    unfold Config.call
    split
    case isTrue => exact ⟨rfl, calls, waits⟩
    case isFalse => exact ⟨rfl, congrArg (· + 1) calls, waits⟩
  cases stage with
  | fresh => exact called 0
  | waiting next => exact called next
  | finished result => exact ⟨rfl, calls, waits⟩
  | calling attempt =>
    cases h : j.answer attempt with
    | ok x =>
      rw [turn_of_ok h, turn_of_ok h]
      exact ⟨rfl, calls, waits⟩
    | error f =>
      rw [turn_of_error h, turn_of_error h]
      exact next_alike (verdicts rfl attempt f) calls waits attempt

theorem turn_congr (verdicts : ∀ n f, c.verdict a n f = c.verdict b n f) (r : Run α) :
    c.turn j a r = c.turn j b r := by
  obtain ⟨stage, t⟩ := r
  cases stage with
  | fresh | waiting | finished => rfl
  | calling attempt =>
    cases h : j.answer attempt with
    | ok x => rw [turn_of_ok h, turn_of_ok h]
    | error f => rw [turn_of_error h, turn_of_error h, verdicts attempt f]

/-! ## 4. Jobs by themselves -/

/-- A job as work: a call counts, and answers by its number. -/
def Job.work (j : Job α) : Work (StateM Tally) Unit α where
  name := j.name
  body _ := fun t => (j.answer t.calls, { t with calls := t.calls + 1 })

def Tally.wait (delay : Float) : StateM Tally (Except Failure Unit) :=
  fun t => (.ok (), { t with delays := t.delays ++ [delay] })

/-- A job that has ended takes part in nothing any more. -/
theorem iterate_turn_finished (c : Config) (j : Job α) (result : Except Failure α) (t : Tally) (n : Nat) :
    (c.turn j j.name)^[n] ⟨.finished result, t⟩ = ⟨.finished result, t⟩ :=
  Function.iterate_fixed rfl n

/-- A job that has come to an end, with what there was on the way. -/
def Run.ended (x : Except Failure α × Tally) : Run α := ⟨.finished x.1, x.2⟩

theorem iterate_turn_waiting (c : Config) (j : Job α) (left attempt : Nat) (t : Tally)
    (calls : t.calls = attempt) (enough : (c.maxRetries + 1 - attempt).toNat < left) (more : Nat) :
    (c.turn j j.name)^[2 * left + more] ⟨.waiting attempt, t⟩
      = .ended (c.resume Tally.wait j.work () left attempt t) := by
  -- Induction on the attempts left; each of them is two turns, a call and its answer.
  induction left generalizing attempt t with
  | zero => exact absurd enough (Nat.not_lt_zero _)
  | succ left ih =>
    have two : 2 * (left + 1) + more = (2 * left + more).succ.succ := by omega
    rw [two, Function.iterate_succ_apply, Function.iterate_succ_apply, resume_succ]
    by_cases last : c.maxRetries < attempt
    · have call : c.turn j j.name ⟨.waiting attempt, t⟩ = ⟨.finished (.error .noAttempt), t⟩ := if_pos last
      rw [if_pos last, call]
      exact iterate_turn_finished c j _ t _
    · have call : c.turn j j.name ⟨.waiting attempt, t⟩
          = ⟨.calling attempt, { t with calls := t.calls + 1 }⟩ := if_neg last
      have body : j.work.body () t = (j.answer attempt, { t with calls := t.calls + 1 }) := by
        rw [← calls]
        rfl
      rw [if_neg last, call, body]
      cases h : j.answer attempt with
      | ok x =>
        rw [turn_of_ok h]
        exact iterate_turn_finished c j _ _ _
      | error f =>
        rw [turn_of_error h]
        dsimp only
        cases hv : c.verdict j.name attempt f with
        | giveUp g =>
          have same : c.verdict j.work.name attempt f = .giveUp g := hv
          rw [same]
          exact iterate_turn_finished c j _ _ _
        | wait delay =>
          have same : c.verdict j.work.name attempt f = .wait delay := hv
          rw [same]
          exact ih (attempt + 1) _ (congrArg (· + 1) calls) (by omega)

/-- As many turns as a job can need. -/
def Config.maxTurns (c : Config) : Nat := 2 * ((c.maxRetries + 1).toNat + 1)

/-- By itself, a job comes to what suspended work comes to. -/
theorem alone_eq_ended (c : Config) (j : Job α) {turns : Nat} (enough : c.maxTurns ≤ turns) :
    c.alone j turns = .ended (c.executeSuspended Tally.wait j.work () ⟨0, []⟩) := by
  obtain ⟨more, rfl⟩ := Nat.exists_eq_add_of_le enough
  have last : (c.maxRetries + 1 - (0 : Nat)).toNat < (c.maxRetries + 1).toNat + 1 := by omega
  -- The first turn of a job is that of a job that has waited.
  obtain ⟨n, hn⟩ : ∃ n, c.maxTurns + more = n + 1 := ⟨c.maxTurns + more - 1, by unfold Config.maxTurns; omega⟩
  rw [Config.executeSuspended, ← iterate_turn_waiting c j _ 0 ⟨0, []⟩ rfl last more]
  show (c.turn j j.name)^[c.maxTurns + more] .new = (c.turn j j.name)^[c.maxTurns + more] ⟨.waiting 0, ⟨0, []⟩⟩
  rw [hn, Function.iterate_succ_apply, Function.iterate_succ_apply]
  rfl

/-! ## 5. Jobs that share a policy -/

variable {ι : Type} [DecidableEq ι]

/-- A policy with the label of the job begun last, and how far each job has got. -/
structure Shared (ι α : Type) where
  label : Text
  runs : ι → Run α

/-- A job that begins puts its name on the policy. -/
def Config.shift (c : Config) (jobs : ι → Job α) (s : Shared ι α) (i : ι) : Shared ι α where
  label := if (s.runs i).isFresh then (jobs i).name else s.label
  runs := Function.update s.runs i (c.turn (jobs i) s.label (s.runs i))

/-- Jobs after the turns that a schedule gives them. -/
def Config.after (c : Config) (jobs : ι → Job α) (label : Text) (schedule : List ι) : Shared ι α :=
  schedule.foldl (c.shift jobs) ⟨label, fun _ => .new⟩

variable {jobs : ι → Job α} {label : Text} {schedule : List ι} {i k : ι}

theorem after_concat (c : Config) (jobs : ι → Job α) (label : Text) (schedule : List ι) (i : ι) :
    c.after jobs label (schedule ++ [i]) = c.shift jobs (c.after jobs label schedule) i := by
  rw [Config.after, Config.after, List.foldl_append]
  rfl

theorem runs_concat_self (c : Config) (jobs : ι → Job α) (label : Text) (schedule : List ι) (i : ι) :
    (c.after jobs label (schedule ++ [i])).runs i =
      c.turn (jobs i) (c.after jobs label schedule).label ((c.after jobs label schedule).runs i) := by
  rw [after_concat]
  exact Function.update_self ..

theorem runs_concat_of_ne (c : Config) (jobs : ι → Job α) (label : Text) (schedule : List ι) (h : k ≠ i) :
    (c.after jobs label (schedule ++ [i])).runs k = (c.after jobs label schedule).runs k := by
  rw [after_concat]
  exact Function.update_of_ne h ..

theorem count_concat_of_ne (schedule : List ι) (h : i ≠ k) : (schedule ++ [k]).count i = schedule.count i := by
  rw [List.count_append, List.count_singleton, if_neg (by simpa using Ne.symm h), Nat.add_zero]

/-- What every turn of its own keeps, a job keeps in any schedule. -/
theorem runs_induction (c : Config) (jobs : ι → Job α) (label : Text) (i : ι) {P : Nat → Run α → Prop}
    (start : P 0 .new)
    (own : ∀ past, P (past.count i) ((c.after jobs label past).runs i) →
      P (past.count i + 1) (c.turn (jobs i) (c.after jobs label past).label ((c.after jobs label past).runs i)))
    (schedule : List ι) : P (schedule.count i) ((c.after jobs label schedule).runs i) := by
  induction schedule using List.reverseRecOn with
  | nil => exact start
  | append_singleton past k ih =>
    by_cases h : i = k
    · subst h
      rw [runs_concat_self, List.count_append, List.count_singleton_self]
      exact own past ih
    · rw [runs_concat_of_ne c jobs label past h, count_concat_of_ne past h]
      exact ih

theorem runs_of_notMem (c : Config) (jobs : ι → Job α) (label : Text) (h : i ∉ schedule) :
    (c.after jobs label schedule).runs i = .new :=
  runs_induction c jobs label i (P := fun n r => n = 0 → r = .new) (fun _ => rfl)
    (fun _ _ turns => absurd turns (Nat.succ_ne_zero _)) schedule (List.count_eq_zero.2 h)

/-- A job has begun once it had a turn. -/
theorem isFresh_runs (c : Config) (jobs : ι → Job α) (label : Text) (schedule : List ι) (i : ι) :
    ((c.after jobs label schedule).runs i).isFresh = true ↔ i ∉ schedule := by
  refine Iff.trans ?_ List.count_eq_zero
  refine runs_induction c jobs label i (P := fun n r => r.isFresh = true ↔ n = 0) (iff_of_true rfl rfl) ?_ schedule
  intro past _
  rw [isFresh_turn]
  exact iff_of_false Bool.false_ne_true (Nat.succ_ne_zero _)

theorem label_concat (c : Config) (jobs : ι → Job α) (label : Text) (schedule : List ι) (i : ι) :
    (c.after jobs label (schedule ++ [i])).label =
      if i ∈ schedule then (c.after jobs label schedule).label else (jobs i).name := by
  rw [after_concat, Config.shift]
  by_cases h : i ∈ schedule
  · rw [if_pos h, if_neg fun fresh => (isFresh_runs c jobs label schedule i).1 fresh h]
  · rw [if_neg h, if_pos ((isFresh_runs c jobs label schedule i).2 h)]

/-- The label is the name of a job that has begun. -/
theorem exists_name_eq_label (c : Config) (jobs : ι → Job α) (label : Text) (h : i ∈ schedule) :
    ∃ k, (c.after jobs label schedule).label = (jobs k).name := by
  induction schedule using List.reverseRecOn generalizing i with
  | nil => exact absurd h List.not_mem_nil
  | append_singleton schedule k ih =>
    rw [label_concat]
    split
    case isTrue earlier => exact ih earlier
    case isFalse => exact ⟨k, rfl⟩

/-- Whatever the order of turns, a job is as far as it would be by itself, up to the lengths of waits. -/
theorem runs_alike_alone (c : Config) (wellFormed : ∀ i, (jobs i).name.isWellFormed = true) (label : Text)
    (schedule : List ι) (i : ι) :
    ((c.after jobs label schedule).runs i).Alike (c.alone (jobs i) (schedule.count i)) := by
  refine runs_induction c jobs label i (P := fun n r => r.Alike (c.alone (jobs i) n)) ⟨rfl, rfl, rfl⟩ ?_ schedule
  intro past ih
  rw [alone_succ]
  refine turn_alike (fun begun n f => ?_) ih
  -- A job that has begun had its turn before, so that the label is one of the names.
  have member : i ∈ past := by
    by_contra absent
    exact absurd ((isFresh_runs c jobs label past i).2 absent) (Bool.eq_false_iff.1 begun)
  obtain ⟨k, hk⟩ := exists_name_eq_label c jobs label member
  rw [hk]
  exact verdict_alike (wellFormed k) (wellFormed i) n f

/-- Without jitter, waits are as long as they would be, too. -/
theorem runs_eq_alone_of_unjittered (plain : c.strategy ≠ some .exponentialJitter) (jobs : ι → Job α)
    (label : Text) (schedule : List ι) (i : ι) :
    (c.after jobs label schedule).runs i = c.alone (jobs i) (schedule.count i) := by
  refine runs_induction c jobs label i (P := fun n r => r = c.alone (jobs i) n) rfl ?_ schedule
  intro past ih
  rw [alone_succ, ih]
  exact turn_congr (verdict_eq_of_unjittered plain _ (jobs i).name) _

/-- The label stays as long as nobody of another name begins. -/
theorem label_of_undisturbed (c : Config) (jobs : ι → Job α) (label : Text) {before during : List ι}
    (first : i ∉ before) (others : ∀ k ∈ during, k ∈ before ∨ (jobs k).name = (jobs i).name) :
    (c.after jobs label (before ++ i :: during)).label = (jobs i).name := by
  induction during using List.reverseRecOn with
  | nil => rw [label_concat, if_neg first]
  | append_singleton during k ih =>
    have same := ih fun l member => others l (List.mem_append_left [k] member)
    rw [← List.cons_append, ← List.append_assoc, label_concat, same]
    split
    case isTrue => rfl
    case isFalse fresh =>
      rcases others k (by simp) with early | own
      · exact absurd (List.mem_append_left _ early) fresh
      · exact own

/-- A job that is the last to begin runs as if alone. -/
theorem runs_eq_alone_of_undisturbed (c : Config) (jobs : ι → Job α) (label : Text) {before during : List ι}
    (first : i ∉ before) (others : ∀ k ∈ during, k ∈ before ∨ (jobs k).name = (jobs i).name) :
    (c.after jobs label (before ++ i :: during)).runs i = c.alone (jobs i) (during.count i + 1) := by
  induction during using List.reverseRecOn with
  | nil =>
    rw [runs_concat_self, runs_of_notMem c jobs label first]
    rfl
  | append_singleton during k ih =>
    have earlier : ∀ k ∈ during, k ∈ before ∨ (jobs k).name = (jobs i).name :=
      fun l member => others l (List.mem_append_left [k] member)
    rw [← List.cons_append, ← List.append_assoc]
    by_cases h : i = k
    · subst h
      rw [runs_concat_self, label_of_undisturbed c jobs label first earlier, ih earlier, List.count_append,
        List.count_singleton_self, alone_succ c _ (_ + 1)]
    · rw [runs_concat_of_ne c jobs label _ h, count_concat_of_ne during h]
      exact ih earlier

/-- Whatever the order of turns, a job that had enough of them comes to the same result after as many calls
and waits as suspended work that nothing else shares the policy with. -/
theorem ends_as_alone (c : Config) (jobs : ι → Job α) (wellFormed : ∀ i, (jobs i).name.isWellFormed = true)
    (label : Text) {schedule : List ι} (i : ι) (enough : c.maxTurns ≤ schedule.count i) :
    let own := c.executeSuspended Tally.wait (jobs i).work () ⟨0, []⟩
    ((c.after jobs label schedule).runs i).Alike (.ended own) := by
  intro own
  rw [← alone_eq_ended c (jobs i) enough]
  exact runs_alike_alone c wellFormed label schedule i

/-- Custody that is out of order. -/
def outage (call : Text) : Job Unit := ⟨call, fun _ => .error (.field (.custodianFailed "connection reset" call))⟩

/-- With jitter, the length of a wait depends on who has begun in between. -/
theorem delays_disturbed :
    let jobs := fun stores : Bool => outage (if stores then "store_keys" else "retrieve_keys")
    ((Config.standard.after jobs "unknown" [false, true, false]).runs false).tally.delays
      ≠ (Config.standard.alone (jobs false) 2).tally.delays := by
  decide +kernel

end SealedFields.Retry
