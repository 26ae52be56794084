import Mathlib.Order.Defs.Unbundled
import SealedFields.Retry.Policy

/-!
# Suspended work

Work that is suspended while it waits goes through its attempts one by one. What its calls and its waits
keep, the whole of it keeps, and where it succeeds, one of its calls did.
-/

namespace SealedFields.Retry

variable {σ α : Type} {c : Config} {wait : Float → StateM σ (Except Failure Unit)}
  {work : Work (StateM σ) Unit α} {left attempt : Nat} {s s' : σ} {a : α}

theorem bind_apply {β : Type} (x : StateM σ α) (f : α → StateM σ β) (s : σ) :
    (x >>= f) s = f (x s).1 (x s).2 := rfl

/-- After a wait that is refused nothing follows. -/
theorem wait_apply (next : StateM σ (Except Failure α)) (delay : Float) (s : σ) :
    (do match ← wait delay with
      | .ok () => next
      | .error f => pure (.error f) : StateM σ (Except Failure α)) s =
      match wait delay s with
      | (.ok (), s') => next s'
      | (.error f, s') => (.error f, s') := by
  rw [bind_apply]
  rcases wait delay s with ⟨f | ⟨⟩, s'⟩ <;> rfl

theorem resume_succ (c : Config) (wait : Float → StateM σ (Except Failure Unit)) (work : Work (StateM σ) Unit α)
    (left attempt : Nat) (s : σ) : c.resume wait work () (left + 1) attempt s =
      if c.maxRetries < attempt then (.error .noAttempt, s)
      else match work.body () s with
        | (.ok a, s') => (.ok a, s')
        | (.error f, s') =>
          match c.verdict work.name attempt f with
          | .giveUp f => (.error f, s')
          | .wait delay =>
            match wait delay s' with
            | (.ok (), s'') => c.resume wait work () left (attempt + 1) s''
            | (.error f, s'') => (.error f, s'') := by
  rw [Config.resume, Config.advance]
  split
  case isTrue => rfl
  case isFalse =>
    rw [bind_apply, bind_apply]
    rcases work.body () s with ⟨r, s'⟩
    cases r with
    | ok a => rfl
    | error f =>
      dsimp only
      cases c.verdict work.name attempt f with
      | giveUp f => rfl
      | wait delay => exact wait_apply (c.resume wait work () left (attempt + 1)) delay s'

/-- The first attempt is the last one if it succeeds. -/
theorem resume_of_ok (tries : attempt ≤ c.maxRetries) (h : work.body () s = (.ok a, s')) :
    c.resume wait work () (left + 1) attempt s = (.ok a, s') := by
  rw [resume_succ, if_neg (Int.not_lt.2 tries), h]

variable {R : σ → σ → Prop} [Std.Refl R] [IsTrans σ R]

theorem keeps_resume (body : ∀ s, R s (work.body () s).2) (waits : ∀ delay s, R s (wait delay s).2)
    (left attempt : Nat) (s : σ) : R s (c.resume wait work () left attempt s).2 := by
  -- Induction on the attempts left; a failed attempt and the wait after it keep the relation too.
  induction left generalizing attempt s with
  | zero => exact Std.Refl.refl s
  | succ left ih =>
    have first := body s
    rw [resume_succ]
    split
    case isTrue => exact Std.Refl.refl s
    case isFalse =>
      rcases h : work.body () s with ⟨r, s'⟩
      rw [h] at first
      cases r with
      | ok a => exact first
      | error f =>
        dsimp only
        cases c.verdict work.name attempt f with
        | giveUp f => exact first
        | wait delay =>
          have waited := waits delay s'
          dsimp only
          rcases hw : wait delay s' with ⟨f | ⟨⟩, s''⟩ <;> rw [hw] at waited
          · exact IsTrans.trans _ _ _ first waited
          · exact IsTrans.trans _ _ _ first (IsTrans.trans _ _ _ waited (ih _ _))

/-- Work that succeeds in the end has an attempt that succeeded, after attempts and waits. -/
theorem exists_of_resume_eq_ok (body : ∀ s, R s (work.body () s).2) (waits : ∀ delay s, R s (wait delay s).2)
    (h : c.resume wait work () left attempt s = (.ok a, s')) :
    attempt ≤ c.maxRetries ∧ ∃ s₀, R s s₀ ∧ work.body () s₀ = (.ok a, s') := by
  induction left generalizing attempt s with
  | zero => cases h
  | succ left ih =>
    have first := body s
    rw [resume_succ] at h
    split at h
    case isTrue => cases h
    case isFalse early =>
      refine ⟨Int.not_lt.1 early, ?_⟩
      -- Either this attempt succeeded, or a later one did after a wait.
      rcases hb : work.body () s with ⟨r, s₁⟩
      rw [hb] at h first
      cases r with
      | ok b => exact ⟨s, Std.Refl.refl s, hb.trans h⟩
      | error f =>
        dsimp only at h
        split at h
        case h_1 => cases h
        case h_2 delay _ =>
          have waited := waits delay s₁
          rcases hw : wait delay s₁ with ⟨f | ⟨⟩, s₂⟩
          · rw [hw] at h
            cases h
          · rw [hw] at h waited
            obtain ⟨-, s₀, before, last⟩ := ih h
            exact ⟨s₀, IsTrans.trans _ _ _ first (IsTrans.trans _ _ _ waited before), last⟩

end SealedFields.Retry
