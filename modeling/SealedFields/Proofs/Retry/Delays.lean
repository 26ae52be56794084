import SealedFields.Proofs.Number.Power
import SealedFields.Proofs.Retry.Runs

/-!
# How long delays get

The maximum is applied to a delay that has grown, and growing it may leave the floats. Up to there every delay lies
between zero and the maximum; from there on there is none, and a run that would wait fails instead.
-/

namespace SealedFields.Retry

open Number (PowerOverflows)
open Number.Binary64 (overflowBound)

variable {α β : Type} {c : Config} {label : Text} {n : Nat}

/-! ## 1. The maximum -/

/-- Whatever is clamped, NaN included. -/
theorem clamp_bounds {most : Float} (cap : 0.0 ≤ most) (x : Float) : 0.0 ≤ clamp most x ∧ clamp most x ≤ most := by
  obtain ⟨zero, number⟩ := Number.isNaN_of_le cap
  unfold clamp
  by_cases beyond : most < x
  · rw [if_pos beyond]
    dsimp only
    split
    case isTrue positive => exact ⟨Number.le_of_lt positive, Number.le_self number⟩
    case isFalse => exact ⟨Number.le_self zero, cap⟩
  · rw [if_neg beyond]
    dsimp only
    split
    case isTrue positive =>
      have above := Number.le_of_lt positive
      exact ⟨above, (Number.le_or_lt (Number.isNaN_of_le above).2 number).resolve_right beyond⟩
    case isFalse => exact ⟨Number.le_self zero, cap⟩

/-! ## 2. Growth -/

/-- The delay grows past all floats before the maximum is applied to it. -/
def Config.Overflows (c : Config) (n : Nat) : Prop :=
  match c.strategy with
  | none | some .constant => False
  | some .linear => overflowBound ≤ n + 1
  | some .exponential | some .exponentialJitter => PowerOverflows c.multiplier n

/-- A jitter that is drawn from the name needs one with bytes, and nothing else needs one. -/
def Config.Nameable (c : Config) (label : Text) (n : Nat) : Prop :=
  c.strategy = some .exponentialJitter → c.jitter n = .ofName → label.isWellFormed = true

theorem jitterUnit_of_not_wellFormed (h : label.isWellFormed = false) (attempt : Int) :
    jitterUnit label attempt = .error .unencodable := by
  unfold jitterUnit
  cases encoded : (label ++ (":" : Text) ++ Text.ofInt attempt).utf8? with
  | none => rfl
  | some bs =>
    -- A part of a text that has bytes has bytes itself.
    obtain ⟨cs, chars, -⟩ := Option.map_eq_some_iff.1 encoded
    have whole := Text.isWellFormed_ofChars cs
    rw [← Text.eq_ofChars_of_chars? chars] at whole
    unfold Text.isWellFormed at h whole
    rw [List.append_assoc, List.all_append, h] at whole
    cases whole

theorem spread_cases (jittered : c.strategy = some .exponentialJitter) (label : Text) (n : Nat) (grown : Float) :
    (¬ c.Nameable label n ∧ c.spread label n grown = .error .unencodable) ∨
      (c.Nameable label n ∧ ∃ x, c.spread label n grown = .ok x) := by
  unfold Config.Nameable Config.spread
  cases c.jitter n with
  | random u => exact .inr ⟨nofun, _, rfl⟩
  | ofName =>
    dsimp only
    cases named : label.isWellFormed with
    | false =>
      rw [jitterUnit_of_not_wellFormed named]
      exact .inl ⟨fun nameable => Bool.false_ne_true (nameable jittered rfl), rfl⟩
    | true =>
      obtain ⟨u, drawn⟩ := exists_jitterUnit named n
      rw [drawn]
      exact .inr ⟨fun _ _ => rfl, _, rfl⟩

theorem rawDelay_linear (linear : c.strategy = some .linear) (label : Text) (attempt : Int) :
    c.rawDelay label attempt = match Number.Binary64.ofInt? (attempt + 1) with
      | some turns => .ok (c.baseDelay * turns)
      | none => .error .overflow := by
  unfold Config.rawDelay
  generalize c.strategy = strategy at linear
  subst linear
  rfl

section

variable (grows : 1.0 ≤ c.multiplier) (finite : c.multiplier.isFinite = true)

include grows finite in
theorem power_multiplier_cases (n : Nat) :
    (PowerOverflows c.multiplier n ∧ power c.multiplier n = .error .overflow) ∨
      (¬ PowerOverflows c.multiplier n ∧ ∃ y, power c.multiplier n = .ok y) := by
  unfold power
  rcases Number.power_cases grows finite n with ⟨large, failed⟩ | ⟨small, y, raised⟩
  · rw [failed]
    exact .inl ⟨large, rfl⟩
  · rw [raised]
    exact .inr ⟨small, y, rfl⟩

include grows finite in
theorem rawDelay_cases (label : Text) (n : Nat) :
    (c.Overflows n ∧ c.rawDelay label n = .error .overflow) ∨
      (¬ c.Overflows n ∧ ¬ c.Nameable label n ∧ c.rawDelay label n = .error .unencodable) ∨
      (¬ c.Overflows n ∧ c.Nameable label n ∧ ∃ d, c.rawDelay label n = .ok d) := by
  have unspread (other : c.strategy ≠ some .exponentialJitter) : c.Nameable label n :=
    fun jittered => absurd jittered other
  cases strategy : c.strategy with
  | none =>
    simp only [Config.Overflows, Config.rawDelay, strategy]
    exact .inr (.inr ⟨id, unspread (by simp [strategy]), _, rfl⟩)
  | some growth =>
    cases growth with
    | constant =>
      simp only [Config.Overflows, Config.rawDelay, strategy]
      exact .inr (.inr ⟨id, unspread (by simp [strategy]), _, rfl⟩)
    | linear =>
      simp only [Config.Overflows, strategy]
      rw [rawDelay_linear strategy]
      rcases Number.Binary64.ofInt?_succ_cases n with ⟨large, failed⟩ | ⟨small, turns, converted⟩
      · rw [failed]
        exact .inl ⟨large, rfl⟩
      · rw [converted]
        exact .inr (.inr ⟨small, unspread (by simp [strategy]), _, rfl⟩)
    | exponential =>
      simp only [Config.Overflows, Config.rawDelay, strategy]
      rcases power_multiplier_cases grows finite n with ⟨large, failed⟩ | ⟨small, y, raised⟩
      · rw [failed]
        exact .inl ⟨large, rfl⟩
      · rw [raised]
        exact .inr (.inr ⟨small, unspread (by simp [strategy]), _, rfl⟩)
    | exponentialJitter =>
      simp only [Config.Overflows, Config.rawDelay, strategy]
      rcases power_multiplier_cases grows finite n with ⟨large, failed⟩ | ⟨small, y, raised⟩
      · rw [failed]
        exact .inl ⟨large, rfl⟩
      · -- The name is only looked at once the power is there.
        rw [raised]
        dsimp only [bind, Except.bind]
        rcases spread_cases strategy label n (c.baseDelay * y) with ⟨unnamed, failed⟩ | ⟨named, x, drawn⟩
        · rw [failed]
          exact .inr (.inl ⟨small, unnamed, rfl⟩)
        · rw [drawn]
          exact .inr (.inr ⟨small, named, _, rfl⟩)

theorem delay_bounds (cap : 0.0 ≤ c.maxDelay) {d : Float} (drawn : c.delay label n = .ok d) :
    0.0 ≤ d ∧ d ≤ c.maxDelay := by
  obtain ⟨x, -, clamped⟩ := Outcome.bind_eq_ok_iff.1 drawn
  obtain rfl := Except.ok.inj clamped
  exact clamp_bounds cap x

include grows finite in
theorem delay_cases (cap : 0.0 ≤ c.maxDelay) (label : Text) (n : Nat) :
    (c.Overflows n ∧ c.delay label n = .error .overflow) ∨
      (¬ c.Overflows n ∧ ¬ c.Nameable label n ∧ c.delay label n = .error .unencodable) ∨
      (¬ c.Overflows n ∧ c.Nameable label n ∧ ∃ d, c.delay label n = .ok d ∧ 0.0 ≤ d ∧ d ≤ c.maxDelay) := by
  unfold Config.delay
  rcases rawDelay_cases grows finite label n with ⟨large, failed⟩ | ⟨small, unnamed, failed⟩ | ⟨small, named, d, grown⟩
  · rw [failed]
    exact .inl ⟨large, rfl⟩
  · rw [failed]
    exact .inr (.inl ⟨small, unnamed, rfl⟩)
  · rw [grown]
    exact .inr (.inr ⟨small, named, _, rfl, clamp_bounds cap d⟩)

end

/-! ## 3. Runs -/

section

variable {clock : Float → Except Failure Unit} {j : Job α}

/-- A run whose work always fails, and could always be tried again, ends with the last call that is allowed, or with
the first one after which it is hindered. -/
theorem execute_outage (cap : 0.0 ≤ c.maxDelay) (retries : 0 ≤ c.maxRetries) (clock : Float → Except Failure Unit)
    (args : β) (outage : ∀ i, ∃ f, j.answer i = .error f ∧ f.kind ≠ .cancelled ∧ c.shouldRetry f.kind = true) :
    ∃ k, IsLeast {k : Nat | (k : Int) = c.maxRetries ∨ c.Hindered clock j k} k ∧ (k : Int) ≤ c.maxRetries ∧
      ∃ (r : Except Failure α) (acts : List (Act β)), c.execute (noteWait clock) j.noted args [] = (r, acts) ∧
        acts.filterMap Act.args? = List.replicate (k + 1) args ∧
        (∀ d ∈ acts.filterMap Act.delay?, 0.0 ≤ d ∧ d ≤ c.maxDelay) ∧
        ((k : Int) = c.maxRetries → r = j.answer k) ∧
        ∀ f g, (k : Int) ≠ c.maxRetries → j.answer k = .error f → c.pause clock j.name k f = .error g →
          r = .error g := by
  have retried (i : Nat) : ∃ f, j.answer i = .error f ∧ c.retries f.kind = true := by
    obtain ⟨f, failed, other, retryable⟩ := outage i
    refine ⟨f, failed, Bool.of_not_eq_false fun no => ?_⟩
    rcases retries_eq_false_iff.1 no with cancelled | rejected
    · exact other cancelled
    · rw [retryable] at rejected
      cases rejected
  -- Only the number of retries stops such a run.
  have stops_iff (i : Nat) : c.Stops j i ↔ (i : Int) = c.maxRetries := by
    refine ⟨fun stops => ?_, .inl⟩
    by_contra more
    obtain ⟨f, failed, again⟩ := retried i
    exact not_stops_of_error more failed again stops
  obtain ⟨k, least, early, r, delays, run, pauses, own, hindered⟩ := exists_execute_noted retries clock j args
  simp only [stops_iff] at least own hindered
  refine ⟨k, least, early, r, _, run, ?_, ?_, own, fun f g more => hindered more f g⟩
  · rw [calls_history, List.length_map, List.length_range]
  · rw [waits_history]
    intro d hd
    obtain ⟨i, hi, rfl⟩ := List.mem_map.1 hd
    have hi := List.mem_range.1 hi
    obtain ⟨f, failed, -⟩ := retried i
    exact delay_bounds cap ((pause_eq_ok_iff (by omega)).1 (pauses i hi f failed)).1

/-- Where everything can be told and waited for, only growth hinders a run. -/
theorem hindered_iff_overflows (cap : 0.0 ≤ c.maxDelay) (grows : 1.0 ≤ c.multiplier)
    (finite : c.multiplier.isFinite = true) (early : n < c.maxRetries) {f : Failure} (failed : j.answer n = .error f)
    (named : c.Nameable j.name n) (written : Writable c.maxRetries) (told : ∃ t, f.told = .ok t)
    (taken : ∀ d, 0.0 ≤ d → d ≤ c.maxDelay → clock d = .ok ()) :
    (c.Hindered clock j n ↔ c.Overflows n) ∧
      (c.Overflows n → c.pause clock j.name n f = .error .overflow) := by
  rcases delay_cases grows finite cap j.name n with ⟨large, undrawn⟩ | ⟨-, unnamed, -⟩ | ⟨small, -, d, drawn, low, high⟩
  · have paused : c.pause clock j.name n f = .error .overflow := by
      apply pause_of_not_announced
      rw [announced_eq, undrawn]
      rfl
    exact ⟨iff_of_true ⟨f, _, failed, paused⟩ large, fun _ => paused⟩
  · exact absurd named unnamed
  · have paused : c.pause clock j.name n f = .ok d :=
      (pause_eq_ok_iff early).2 ⟨drawn, ⟨written, told⟩, taken d low high⟩
    refine ⟨iff_of_false ?_ small, fun large => absurd large small⟩
    rintro ⟨f', g, failed', paused'⟩
    obtain rfl := Except.error.inj (failed.symm.trans failed')
    rw [paused] at paused'
    cases paused'

end

/-- Delays are capped, whatever the base delay and the jitter are, unless their growth overflows. Where it does not,
there is a delay between zero and the maximum, or the jitter lacks a name with bytes; where it does, there is no delay.
A run that is kept waiting ends with its work's own failure after all retries, or at the first attempt after which it
is hindered, for that reason. Where every failure can be told and the clock takes what is below the maximum, that is
the first attempt whose growth overflows. -/
theorem delays_capped_unless_overflowing (cap : 0.0 ≤ c.maxDelay) (grows : 1.0 ≤ c.multiplier)
    (finite : c.multiplier.isFinite = true) :
    (∀ (label : Text) (n : Nat),
      (c.Overflows n ∧ c.delay label n = .error .overflow) ∨
      (¬ c.Overflows n ∧ ¬ c.Nameable label n ∧ c.delay label n = .error .unencodable) ∨
      (¬ c.Overflows n ∧ c.Nameable label n ∧ ∃ d, c.delay label n = .ok d ∧ 0.0 ≤ d ∧ d ≤ c.maxDelay)) ∧
    ∀ (clock : Float → Except Failure Unit) (j : Job α) (args : β), 0 ≤ c.maxRetries →
      (∀ i, ∃ f, j.answer i = .error f ∧ f.kind ≠ .cancelled ∧ c.shouldRetry f.kind = true) →
      ∃ k, IsLeast {k : Nat | (k : Int) = c.maxRetries ∨ c.Hindered clock j k} k ∧
        ∃ (r : Except Failure α) (acts : List (Act β)), c.execute (noteWait clock) j.noted args [] = (r, acts) ∧
          acts.filterMap Act.args? = List.replicate (k + 1) args ∧
          (∀ d ∈ acts.filterMap Act.delay?, 0.0 ≤ d ∧ d ≤ c.maxDelay) ∧
          ((k : Int) = c.maxRetries → r = j.answer k) ∧
          (∀ f g, (k : Int) ≠ c.maxRetries → j.answer k = .error f → c.pause clock j.name k f = .error g →
            r = .error g) ∧
          ((∀ n, c.Nameable j.name n) → Writable c.maxRetries →
            (∀ i f, j.answer i = .error f → ∃ t, f.told = .ok t) →
            (∀ d, 0.0 ≤ d → d ≤ c.maxDelay → clock d = .ok ()) →
            IsLeast {k : Nat | (k : Int) = c.maxRetries ∨ c.Overflows k} k ∧
              r = if (k : Int) = c.maxRetries then j.answer k else .error .overflow) := by
  refine ⟨delay_cases grows finite cap, fun clock j args retries outage => ?_⟩
  obtain ⟨k, least, early, r, acts, run, calls, waits, own, hindered⟩ :=
    execute_outage cap retries clock args outage
  refine ⟨k, least, r, acts, run, calls, waits, own, hindered, fun named written told taken => ?_⟩
  choose failure failed _ using outage
  have growth (i : Nat) (hi : (i : Int) < c.maxRetries) : (c.Hindered clock j i ↔ c.Overflows i) ∧
      (c.Overflows i → c.pause clock j.name i (failure i) = .error .overflow) :=
    hindered_iff_overflows cap grows finite hi (failed i) (named i) written (told i _ (failed i)) taken
  have overflows (more : (k : Int) ≠ c.maxRetries) : c.Overflows k :=
    (growth k (by omega)).1.1 (least.1.resolve_left more)
  refine ⟨⟨?_, fun i ends => ?_⟩, ?_⟩
  · by_cases last : (k : Int) = c.maxRetries
    · exact .inl last
    · exact .inr (overflows last)
  · by_contra before
    have hi : (i : Int) < c.maxRetries := by omega
    exact before (least.2 (ends.imp_right (growth i hi).1.2))
  · split
    case isTrue last => exact own last
    case isFalse more => exact hindered _ _ more (failed k) ((growth k (by omega)).2 (overflows more))

/-- A connection that is down for good. -/
def dead : Job Unit := ⟨"connect", fun _ => .error (.raised .connectionRefused "refused")⟩

/-- The standard delays, with more retries than they last for. -/
theorem delays_capped_unless_overflowing_dead :
    let c : Config := { Config.standard with maxRetries := 5000 }
    (∃ d, c.delay "connect" 1023 = .ok d ∧ 0.0 ≤ d ∧ d ≤ 60.0) ∧
      ∃ acts : List (Act Unit), c.execute (noteWait fun _ => .ok ()) dead.noted () [] = (.error .overflow, acts) ∧
        acts.filterMap Act.args? = List.replicate 1025 () := by
  intro c
  have cap : 0.0 ≤ c.maxDelay := by decide +kernel
  have grows : 1.0 ≤ c.multiplier := by decide +kernel
  have finite : c.multiplier.isFinite = true := by decide +kernel
  have overflows (n : Nat) : c.Overflows n ↔ 1024 ≤ n := Number.powerOverflows_two_iff n
  obtain ⟨delays, runs⟩ := delays_capped_unless_overflowing (α := Unit) (β := Unit) cap grows finite
  constructor
  · rcases delays "connect" 1023 with ⟨large, -⟩ | ⟨-, unnamed, -⟩ | ⟨-, -, bounded⟩
    · exact absurd ((overflows 1023).1 large) (by decide)
    · exact absurd (fun _ _ => rfl) unnamed
    · exact bounded
  · obtain ⟨k, -, r, acts, run, calls, -, -, -, ends⟩ :=
      runs (fun _ => .ok ()) dead () (by decide) fun _ => ⟨_, rfl, by decide, by decide⟩
    obtain ⟨least, rfl⟩ := ends (fun _ _ _ => rfl) (writable_of_small (by decide))
      (fun i f failed => by obtain rfl := Except.error.inj failed; exact ⟨_, rfl⟩) (fun _ _ _ => rfl)
    have first : k = 1024 := by
      refine least.unique ⟨.inr ((overflows 1024).2 le_rfl), fun i ends => ?_⟩
      rcases ends with last | large
      · have last : (i : Int) = 5000 := last
        omega
      · exact (overflows i).1 large
    subst first
    exact ⟨acts, run, calls⟩

/-- The standard policy has no delay for an attempt that its maximum would cap. -/
theorem delay_standard_overflows :
    let c := Config.standard
    (0.0 ≤ c.baseDelay ∧ 0.0 ≤ c.maxDelay ∧ 1.0 ≤ c.multiplier ∧ 0.0 ≤ c.jitterFactor ∧ c.jitterFactor ≤ 1.0) ∧
      (c.baseDelay.isFinite ∧ c.maxDelay.isFinite ∧ c.multiplier.isFinite) ∧
      c.delay "f" 1024 = .error .overflow := by
  refine ⟨by decide +kernel, by decide +kernel, ?_⟩
  have large : Config.standard.Overflows 1024 := (Number.powerOverflows_two_iff 1024).2 le_rfl
  rcases delay_cases (c := Config.standard) (by decide +kernel) (by decide +kernel) (by decide +kernel) "f" 1024 with
    ⟨-, failed⟩ | ⟨small, -⟩ | ⟨small, -⟩
  · exact failed
  · exact absurd large small
  · exact absurd large small

end SealedFields.Retry
