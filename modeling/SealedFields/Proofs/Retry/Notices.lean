import SealedFields.Proofs.Outcome
import SealedFields.Retry.Policy

/-!
# Notices of retries

A retry is announced with two counts and with what the failure says. The announcement cannot be written if a count
has no numeral or the failure cannot be told. Under which name, and after which delay, makes no difference.
-/

namespace SealedFields.Retry

variable {c : Config} {f g : Failure} {label : Text} {attempt : Nat} {i : Int} {d : Float}

/-! ## 1. Numerals -/

/-- An integer that is short enough for a numeral. -/
def Writable (i : Int) : Prop := i.natAbs < Nat.pow 10 Decimal.maxDigits

theorem numeral_of_writable (h : Writable i) : numeral i = .ok (Text.ofInt i) := by
  unfold Writable at h
  unfold numeral Decimal.ofInt?
  rw [if_pos h]
  rfl

theorem numeral_of_not_writable (h : ¬ Writable i) : numeral i = .error .numeralTooLong := by
  unfold Writable at h
  unfold numeral Decimal.ofInt?
  rw [if_neg h]

theorem Writable.of_le {n : Nat} (h : Writable i) (le : (n : Int) ≤ i) : Writable n := by
  unfold Writable at h ⊢
  omega

theorem writable_of_small (h : i.natAbs < 10000) : Writable i := by
  have digits : 4 ≤ Decimal.maxDigits := by
    unfold Decimal.maxDigits
    decide
  exact Nat.lt_of_lt_of_le h (Nat.pow_le_pow_right (n := 10) (by decide) digits)

/-! ## 2. What a notice needs -/

/-- What a notice is made of, apart from the name and the delay. -/
def Config.tellable (c : Config) (attempt : Nat) (f : Failure) : Except Failure Unit := do
  let _ ← numeral (attempt + 1)
  let _ ← numeral c.maxRetries
  let _ ← f.told

theorem announced_eq (c : Config) (label : Text) (attempt : Nat) (f : Failure) :
    c.announced label attempt f = (do
      let delay ← c.delay label attempt
      c.tellable attempt f
      return delay) := by
  unfold Config.announced Config.notice Config.tellable
  cases c.delay label attempt <;> cases numeral (attempt + 1) <;> cases numeral c.maxRetries <;> cases f.told <;> rfl

/-- Before the last attempt, it is the number of retries that decides whether both counts can be written. -/
theorem tellable_of_writable (early : attempt < c.maxRetries) (written : Writable c.maxRetries) (f : Failure) :
    c.tellable attempt f = f.told.map fun _ => () := by
  have next : Writable (attempt + 1) := written.of_le (n := attempt + 1) early
  unfold Config.tellable
  rw [numeral_of_writable written, numeral_of_writable next]
  cases f.told <;> rfl

theorem tellable_eq_ok_iff (early : attempt < c.maxRetries) :
    c.tellable attempt f = .ok () ↔ Writable c.maxRetries ∧ ∃ t, f.told = .ok t := by
  by_cases written : Writable c.maxRetries
  · rw [tellable_of_writable early written]
    cases told : f.told with
    | ok t => exact iff_of_true rfl ⟨written, t, rfl⟩
    | error g => exact iff_of_false nofun fun ⟨_, t, h⟩ => nomatch h
  · refine iff_of_false (fun h => ?_) fun ⟨h, _⟩ => written h
    obtain ⟨_, -, h⟩ := Outcome.bind_eq_ok_iff.1 h
    rw [numeral_of_not_writable written] at h
    cases h

theorem announced_eq_ok_iff (early : attempt < c.maxRetries) :
    c.announced label attempt f = .ok d ↔
      c.delay label attempt = .ok d ∧ Writable c.maxRetries ∧ ∃ t, f.told = .ok t := by
  rw [announced_eq, ← tellable_eq_ok_iff early]
  cases c.delay label attempt with
  | error g => exact iff_of_false nofun fun ⟨h, _⟩ => nomatch h
  | ok d' =>
    cases c.tellable attempt f with
    | error g => exact iff_of_false nofun fun ⟨_, h⟩ => nomatch h
    | ok _ => exact ⟨fun h => ⟨h, rfl⟩, fun h => h.1⟩

theorem retries_eq_false_iff {kind : FailureKind} :
    c.retries kind = false ↔ kind = .cancelled ∨ c.shouldRetry kind = false := by
  have within : kind.isWithin .failure = false ↔ kind = .cancelled := by cases kind <;> decide
  unfold Config.retries
  rw [Bool.and_eq_false_iff, within]

theorem verdict_of_not_retries (h : c.retries f.kind = false) (label : Text) (attempt : Nat) :
    c.verdict label attempt f = .giveUp f := by
  unfold Config.verdict
  rw [h]
  rfl

theorem verdict_of_last (last : c.maxRetries ≤ attempt) (written : Writable c.maxRetries) (label : Text) :
    c.verdict label attempt f = .giveUp f := by
  unfold Config.verdict Config.lastNotice
  rw [if_pos last, numeral_of_writable written]
  split <;> rfl

/-- From the last attempt on, verdicts are the same under every name. -/
theorem verdict_of_late (late : c.maxRetries ≤ attempt) (a b : Text) :
    c.verdict a attempt f = c.verdict b attempt f := by
  unfold Config.verdict Config.lastNotice
  rw [if_pos late, if_pos late]
  cases numeral c.maxRetries <;> rfl

theorem verdict_of_early (h : c.retries f.kind = true) (early : attempt < c.maxRetries) (label : Text) :
    c.verdict label attempt f = match c.announced label attempt f with
      | .ok delay => .wait delay
      | .error g => .giveUp g := by
  unfold Config.verdict
  refine (if_neg (by simp [h])).trans ((if_neg (Int.not_le.2 early)).trans ?_)
  cases c.announced label attempt f <;> rfl

end SealedFields.Retry
