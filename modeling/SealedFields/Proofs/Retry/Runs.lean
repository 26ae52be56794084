import Mathlib.Data.Nat.Find
import Mathlib.Order.Bounds.Basic
import Mathlib.Order.Nat
import Mathlib.Tactic.Choose
import SealedFields.Proofs.Retry.Sharing

/-!
# Runs under a retry policy

A run goes on as long as a failure may be retried and a retry is left. The answers of its work decide where it
stops; up to there it waits after every call as long as the policy says, and it comes to the answer of its last
call. Work that is run at once, wrapped, or suspended while it waits does all this in the same way. A run falls
short of this only where a retry cannot be announced, or the clock does not take its delay.
-/

namespace SealedFields.Retry

variable {α β : Type} {c : Config} {clock : Float → Except Failure Unit} {j : Job α} {args : β} {r : Except Failure α}

/-! ## 1. One attempt -/

/-- How a run goes on after an answer. -/
def Config.sequel (c : Config) (label : Text) (attempt : Nat) : Except Failure α → Progress α
  | .ok a => .finished (.ok a)
  | .error f =>
    match c.verdict label attempt f with
    | .giveUp f => .finished (.error f)
    | .wait delay => .waiting delay (attempt + 1)

section

variable {m : Type → Type} [Monad m]

theorem attempts_succ (c : Config) (wait : Float → m (Except Failure Unit)) (w : Work m β α) (args : β)
    (left attempt : Nat) : c.attempts wait w args (left + 1) attempt = (do
      match c.sequel w.name attempt (← w.body args) with
      | .finished r => pure r
      | .waiting delay next => do
        match ← wait delay with
        | .ok () => c.attempts wait w args left next
        | .error f => pure (.error f)) := by
  rw [Config.attempts]
  congr 1
  funext answer
  cases answer with
  | ok a => rfl
  | error f =>
    unfold Config.sequel
    dsimp only
    cases c.verdict w.name attempt f <;> rfl

variable [LawfulMonad m]

end

/-! ## 2. What a run does -/

/-- What happens in a run. -/
inductive Act (β : Type) where
  | called (args : β)
  | waited (delay : Float)

def Act.args? : Act β → Option β
  | .called args => some args
  | .waited _ => none

def Act.delay? : Act β → Option Float
  | .called _ => none
  | .waited delay => some delay

/-- A job whose calls are noted; the calls noted so far number the next one. -/
def Job.noted (j : Job α) : Work (StateM (List (Act β))) β α where
  name := j.name
  body args := fun acts => (j.answer (acts.filterMap Act.args?).length, acts ++ [.called args])

/-- Delays that the clock takes are noted. -/
def noteWait (clock : Float → Except Failure Unit) (delay : Float) : StateM (List (Act β)) (Except Failure Unit) :=
  fun acts => match clock delay with
    | .ok () => (.ok (), acts ++ [.waited delay])
    | .error f => (.error f, acts)

/-- A call, and after each wait another one. -/
def history (args : β) : List Float → List (Act β)
  | [] => [.called args]
  | delay :: delays => .called args :: .waited delay :: history args delays

theorem calls_history (args : β) (delays : List Float) :
    (history args delays).filterMap Act.args? = List.replicate (delays.length + 1) args := by
  induction delays with
  | nil => rfl
  | cons delay delays ih =>
    show args :: (history args delays).filterMap Act.args? = args :: List.replicate (delays.length + 1) args
    rw [ih]

theorem waits_history (args : β) (delays : List Float) :
    (history args delays).filterMap Act.delay? = delays := by
  induction delays with
  | nil => rfl
  | cons delay delays ih =>
    show delay :: (history args delays).filterMap Act.delay? = delay :: delays
    rw [ih]

/-- How a run goes on after an answer, by a clock that may refuse the delay. -/
def Config.timed (c : Config) (clock : Float → Except Failure Unit) (label : Text) (attempt : Nat)
    (answer : Except Failure α) : Progress α :=
  match c.sequel label attempt answer with
  | .finished r => .finished r
  | .waiting delay next =>
    match clock delay with
    | .ok () => .waiting delay next
    | .error f => .finished (.error f)

theorem attempts_noted_succ (c : Config) (clock : Float → Except Failure Unit) (j : Job α) (args : β) (left : Nat)
    {attempt : Nat} {acts : List (Act β)} (made : (acts.filterMap Act.args?).length = attempt) :
    c.attempts (noteWait clock) j.noted args (left + 1) attempt acts =
      match c.timed clock j.name attempt (j.answer attempt) with
      | .finished r => (r, acts ++ [.called args])
      | .waiting delay next =>
        c.attempts (noteWait clock) j.noted args left next (acts ++ [.called args, .waited delay]) := by
  rw [attempts_succ, bind_apply]
  show (match c.sequel j.name attempt (j.answer (acts.filterMap Act.args?).length) with
    | .finished r => pure r
    | .waiting delay next => do
      match ← noteWait clock delay with
      | .ok () => c.attempts (noteWait clock) j.noted args left next
      | .error f => pure (.error f) : StateM (List (Act β)) (Except Failure α)) (acts ++ [.called args]) = _
  rw [made]
  unfold Config.timed
  cases c.sequel j.name attempt (j.answer attempt) with
  | finished r => rfl
  | waiting delay next =>
    refine (wait_apply _ delay _).trans ?_
    dsimp only [noteWait]
    cases clock delay with
    | error f => rfl
    | ok _ =>
      show c.attempts (noteWait clock) j.noted args left next (acts ++ [.called args] ++ [.waited delay]) = _
      rw [List.append_assoc]
      rfl

/-- A run goes on for as many waits as its answers make it wait, and ends with the answer after them. -/
theorem attempts_noted (c : Config) (clock : Float → Except Failure Unit) (j : Job α) (args : β)
    (delays : Nat → Float) {k left attempt : Nat} {acts : List (Act β)}
    (made : (acts.filterMap Act.args?).length = attempt)
    (waits : ∀ i < k, c.timed clock j.name (attempt + i) (j.answer (attempt + i))
      = .waiting (delays (attempt + i)) (attempt + i + 1))
    (ends : c.timed clock j.name (attempt + k) (j.answer (attempt + k)) = .finished r) (enough : k < left) :
    c.attempts (noteWait clock) j.noted args left attempt acts
      = (r, acts ++ history args ((List.range k).map fun i => delays (attempt + i))) := by
  -- Induction on the waits that are to come; the first of them is the one after this call.
  induction k generalizing left attempt acts with
  | zero =>
    obtain ⟨left, rfl⟩ := Nat.exists_eq_succ_of_ne_zero (Nat.ne_zero_of_lt enough)
    rw [Nat.add_zero] at ends
    rw [attempts_noted_succ c clock j args left made, ends]
    rfl
  | succ k ih =>
    obtain ⟨left, rfl⟩ := Nat.exists_eq_succ_of_ne_zero (Nat.ne_zero_of_lt enough)
    have first := waits 0 (Nat.succ_pos k)
    have later (i : Nat) : attempt + 1 + i = attempt + (i + 1) := by omega
    have made' : ((acts ++ [Act.called args, .waited (delays attempt)]).filterMap Act.args?).length
        = attempt + 1 := by
      rw [List.filterMap_append, List.length_append, made]
      rfl
    rw [Nat.add_zero] at first
    rw [attempts_noted_succ c clock j args left made, first]
    dsimp only
    rw [ih made' ?_ ?_ (Nat.lt_of_succ_lt_succ enough)]
    · rw [List.append_assoc, List.range_succ_eq_map, List.map_cons, List.map_map]
      simp only [later]
      rfl
    · intro i hi
      rw [later]
      exact waits (i + 1) (Nat.succ_lt_succ hi)
    · rw [later]
      exact ends

/-! ## 3. Where a run stops -/

/-- A run stops at its last attempt, at a value, and at a failure that is not retried. -/
def Config.Stops (c : Config) (j : Job α) (k : Nat) : Prop :=
  (k : Int) = c.maxRetries ∨ (∃ a, j.answer k = .ok a) ∨
    ∃ f, j.answer k = .error f ∧ (f.kind = .cancelled ∨ c.shouldRetry f.kind = false)

/-- What holds at the last attempt that is allowed holds for the first time at one that is allowed. -/
theorem exists_isLeast_attempt (retries : 0 ≤ c.maxRetries) (P : Nat → Prop)
    (last : ∀ k : Nat, (k : Int) = c.maxRetries → P k) : ∃ k, IsLeast {k | P k} k ∧ (k : Int) ≤ c.maxRetries := by
  classical
  have ends : P c.maxRetries.toNat := last _ (Int.toNat_of_nonneg retries)
  have early : Nat.find ⟨_, ends⟩ ≤ c.maxRetries.toNat := Nat.find_min' _ ends
  exact ⟨_, Nat.isLeast_find ⟨_, ends⟩, by omega⟩

theorem not_stops_of_error {k : Nat} {f : Failure} (more : (k : Int) ≠ c.maxRetries) (failed : j.answer k = .error f)
    (retried : c.retries f.kind = true) : ¬ c.Stops j k := by
  rintro (last | ⟨a, value⟩ | ⟨g, failed', rejected⟩)
  · exact more last
  · rw [failed] at value
    cases value
  · rw [failed] at failed'
    obtain rfl := Except.error.inj failed'
    rw [retries_eq_false_iff.2 rejected] at retried
    cases retried

theorem exists_error_of_not_stops {k : Nat} (goes : ¬ c.Stops j k) :
    ∃ f, j.answer k = .error f ∧ c.retries f.kind = true := by
  obtain ⟨-, other⟩ := not_or.1 goes
  cases answered : j.answer k with
  | ok a => exact absurd (.inl ⟨a, answered⟩) other
  | error f =>
    exact ⟨f, rfl, Bool.of_not_eq_false fun no => other (.inr ⟨f, answered, retries_eq_false_iff.1 no⟩)⟩

/-- At its last attempt a run tells how many retries there were. -/
theorem timed_of_stops {k : Nat} (stops : c.Stops j k) (counted : (k : Int) = c.maxRetries → Writable c.maxRetries)
    (label : Text) : c.timed clock label k (j.answer k) = .finished (j.answer k) := by
  unfold Config.timed
  cases answered : j.answer k with
  | ok a => rfl
  | error f =>
    have final : c.verdict label k f = .giveUp f := by
      rcases stops with last | ⟨a, value⟩ | ⟨f', failed, rejected⟩
      · exact verdict_of_last (Int.le_of_eq last.symm) (counted last) label
      · rw [answered] at value
        cases value
      · rw [answered] at failed
        obtain rfl := Except.error.inj failed
        exact verdict_of_not_retries (retries_eq_false_iff.2 rejected) label k
    unfold Config.sequel
    dsimp only
    rw [final]

/-- The delay after a failed attempt, once it is announced and waited for. -/
def Config.pause (c : Config) (clock : Float → Except Failure Unit) (label : Text) (attempt : Nat) (f : Failure) :
    Except Failure Float := do
  let delay ← c.announced label attempt f
  clock delay
  return delay

/-- Anywhere else the pause decides: the run waits, or ends with the failure that hinders it. -/
theorem timed_of_not_stops {k : Nat} {f : Failure} (goes : ¬ c.Stops j k) (early : k ≤ c.maxRetries)
    (failed : j.answer k = .error f) (label : Text) :
    c.timed clock label k (j.answer k) =
      match c.pause clock label k f with
      | .ok delay => .waiting delay (k + 1)
      | .error g => .finished (.error g) := by
  have more : (k : Int) ≠ c.maxRetries := fun last => goes (.inl last)
  obtain ⟨f', failed', again⟩ := exists_error_of_not_stops goes
  obtain rfl := Except.error.inj (failed.symm.trans failed')
  unfold Config.timed Config.sequel Config.pause
  rw [failed]
  dsimp only
  rw [verdict_of_early again (by omega)]
  cases c.announced label k f with
  | error g => rfl
  | ok delay =>
    dsimp only [bind, Except.bind]
    cases clock delay <;> rfl

theorem pause_of_not_announced {label : Text} {attempt : Nat} {f g : Failure}
    (h : c.announced label attempt f = .error g) : c.pause clock label attempt f = .error g := by
  unfold Config.pause
  rw [h]
  rfl

/-- Before the last attempt, a pause needs a delay, a notice and a clock. -/
theorem pause_eq_ok_iff {label : Text} {attempt : Nat} {f : Failure} {d : Float} (early : attempt < c.maxRetries) :
    c.pause clock label attempt f = .ok d ↔ c.delay label attempt = .ok d ∧
      (Writable c.maxRetries ∧ ∃ t, f.told = .ok t) ∧ clock d = .ok () := by
  rw [← and_assoc, ← announced_eq_ok_iff early]
  unfold Config.pause
  cases c.announced label attempt f with
  | error g => exact iff_of_false nofun fun ⟨h, _⟩ => nomatch h
  | ok d' =>
    dsimp only [bind, Except.bind]
    constructor
    · intro h
      cases taken : clock d' with
      | error g =>
        rw [taken] at h
        cases h
      | ok _ =>
        rw [taken] at h
        obtain rfl := Except.ok.inj h
        exact ⟨rfl, taken⟩
    · rintro ⟨h, taken⟩
      obtain rfl := Except.ok.inj h
      rw [taken]
      rfl

/-- A run cannot go on after a failed attempt: there is no delay, the retry cannot be announced, or the clock does not
take the delay. -/
def Config.Hindered (c : Config) (clock : Float → Except Failure Unit) (j : Job α) (k : Nat) : Prop :=
  ∃ f g, j.answer k = .error f ∧ c.pause clock j.name k f = .error g

/-- Where there was a pause before, the number of retries can be written. -/
theorem writable_of_last {k : Nat} (counted : 0 < k → Writable c.maxRetries) (last : (k : Int) = c.maxRetries) :
    Writable c.maxRetries := by
  rcases Nat.eq_zero_or_pos k with rfl | later
  · rw [← last]
    exact writable_of_small (by decide)
  · exact counted later

/-! ## 4. The account of a run -/

/-- A run that has not stopped before has paused after every call, and ends where an answer makes it end. -/
theorem execute_noted (args : β) {k : Nat} (early : k ≤ c.maxRetries) (goes : ∀ i < k, ¬ c.Stops j i)
    (delays : Nat → Float)
    (pauses : ∀ i < k, ∀ f, j.answer i = .error f → c.pause clock j.name i f = .ok (delays i))
    (ends : c.timed clock j.name k (j.answer k) = .finished r) :
    c.execute (noteWait clock) j.noted args [] = (r, history args ((List.range k).map delays)) := by
  have waits : ∀ i < k,
      c.timed clock j.name (0 + i) (j.answer (0 + i)) = .waiting (delays (0 + i)) (0 + i + 1) := by
    intro i hi
    rw [Nat.zero_add]
    cases failed : j.answer i with
    | ok a => exact absurd (.inr (.inl ⟨a, failed⟩)) (goes i hi)
    | error f => rw [← failed, timed_of_not_stops (goes i hi) (by omega) failed, pauses i hi f failed]
  have last : c.timed clock j.name (0 + k) (j.answer (0 + k)) = .finished r := by
    rw [Nat.zero_add]
    exact ends
  have none : (([] : List (Act β)).filterMap Act.args?).length = 0 := rfl
  rw [Config.execute, attempts_noted c clock j args delays none waits last (by omega), List.nil_append]
  simp only [Nat.zero_add]

/-- Any run ends at the first attempt at which it stops or is hindered, with the answer there or with the failure that
hinders it. -/
theorem exists_execute_noted (retries : 0 ≤ c.maxRetries) (clock : Float → Except Failure Unit) (j : Job α)
    (args : β) : ∃ k, IsLeast {k | c.Stops j k ∨ c.Hindered clock j k} k ∧ (k : Int) ≤ c.maxRetries ∧
      ∃ (r : Except Failure α) (delays : Nat → Float),
        c.execute (noteWait clock) j.noted args [] = (r, history args ((List.range k).map delays)) ∧
        (∀ i < k, ∀ f, j.answer i = .error f → c.pause clock j.name i f = .ok (delays i)) ∧
        (c.Stops j k → r = j.answer k) ∧
        (¬ c.Stops j k → ∀ f g, j.answer k = .error f → c.pause clock j.name k f = .error g → r = .error g) := by
  obtain ⟨k, least, early⟩ := exists_isLeast_attempt retries (fun k => c.Stops j k ∨ c.Hindered clock j k)
    fun _ last => .inl (.inl last)
  have before : ∀ i < k, ¬ c.Stops j i ∧ ¬ c.Hindered clock j i := fun i hi =>
    not_or.1 fun ends => Nat.not_lt.2 (least.2 ends) hi
  have paused : ∀ i < k, ∃ d, ∀ f, j.answer i = .error f → c.pause clock j.name i f = .ok d := by
    intro i hi
    obtain ⟨f, failed, -⟩ := exists_error_of_not_stops (before i hi).1
    cases pause : c.pause clock j.name i f with
    | error g => exact absurd ⟨f, g, failed, pause⟩ (before i hi).2
    | ok d =>
      refine ⟨d, fun f' failed' => ?_⟩
      obtain rfl := Except.error.inj (failed.symm.trans failed')
      exact pause
  choose! delays pauses using paused
  have run {r : Except Failure α} := execute_noted (r := r) args early (fun i hi => (before i hi).1) delays pauses
  by_cases stops : c.Stops j k
  · have counted : 0 < k → Writable c.maxRetries := fun later => by
      obtain ⟨f, failed, -⟩ := exists_error_of_not_stops (before 0 later).1
      exact ((pause_eq_ok_iff (by omega)).1 (pauses 0 later f failed)).2.1.1
    refine ⟨k, least, early, _, delays, run (timed_of_stops stops (writable_of_last counted) j.name), pauses, ?_, ?_⟩
    · exact fun _ => rfl
    · exact fun goes => absurd stops goes
  · obtain ⟨f, g, failed, hindered⟩ := least.1.resolve_left stops
    have ends : c.timed clock j.name k (j.answer k) = .finished (.error g) := by
      rw [timed_of_not_stops stops early failed, hindered]
    refine ⟨k, least, early, _, delays, run ends, pauses, fun h => absurd h stops, fun _ f' g' failed' hindered' => ?_⟩
    obtain rfl := Except.error.inj (failed.symm.trans failed')
    rw [hindered] at hindered'
    exact congrArg Except.error (Except.error.inj hindered')

/-- A job whose calls can be suspended. -/
def Job.suspendable (j : Job α) : Job α := ⟨j.name, fun n => (j.answer n).mapError .ofSuspendable⟩

end SealedFields.Retry
