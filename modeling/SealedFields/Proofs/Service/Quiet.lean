import SealedFields.Proofs.Service.History

/-!
# Between two requests

Whatever was asked of the service before, with whatever outcome, nothing is under way when the next request
comes, as long as its custodian answers every call.
-/

namespace SealedFields.Service

variable {s s' : Service}

/-! ## 1. The invariant -/

/-- A service between two requests: no keys are being loaded, and the custodian answers. -/
structure Quiet (s : Service) : Prop where
  answering : Custody.Answering s.custodian
  store : ∀ store, s.keys = some store → (s.custody store).Quiet
  ready : s.ready = true → s.keys.isSome

theorem Quiet.of_same (quiet : s.Quiet) (custodian_eq : s'.custodian = s.custodian) (keys_eq : s'.keys = s.keys)
    (ready_eq : s'.ready = s.ready) : s'.Quiet := by
  refine ⟨?_, fun store found => ?_, ?_⟩
  · rw [custodian_eq]
    exact quiet.answering
  · rw [keys_eq] at found
    exact (quiet.store store found).of_same rfl custodian_eq
  · rw [ready_eq, keys_eq]
    exact quiet.ready

/-- What follows a quiet state is quiet, too. -/
def Settles (s s' : Service) : Prop := s.Quiet → s'.Quiet

instance : Std.Refl Settles := ⟨fun _ => id⟩

instance : IsTrans Service Settles := ⟨fun _ _ _ first second quiet => second (first quiet)⟩

/-! ## 2. Starting -/

theorem settles_start : Keeps Settles start := by
  refine keeps_start_of (fun s _ _ _ _ _ quiet => quiet.of_same rfl rfl rfl) (fun s wrapper store new quiet => ?_)
    fun s keys quiet => ⟨quiet.answering, quiet.store, fun _ => keys⟩
  refine ⟨quiet.answering, fun store' found => ?_, fun _ => rfl⟩
  obtain rfl := Option.some.inj found
  exact Custody.quiet_new quiet.answering new

/-! ## 3. Histories -/

theorem settles_withKeys {α : Type} {f : KeySource → Custody → α × Custody}
    (works : ∀ source c, Custody.Quiet c → (f source c).2.Quiet) : Keeps Settles (withKeys f) := by
  refine keeps_withKeys_of fun s store found quiet => ?_
  have after := works s.keySource _ (quiet.store store found)
  refine ⟨after.answering, fun store' found' => ?_, fun _ => rfl⟩
  obtain rfl := Option.some.inj found'
  exact after.of_same rfl rfl

instance : LedgerFramed Settles where
  start := settles_start
  ask errand o := settles_withKeys fun source _ quiet => quiet.ask source errand o
  askAll requests := settles_withKeys fun source _ quiet => quiet.askAll source requests
  bootstrappingKey evaluationKey scheme :=
    settles_withKeys fun source _ quiet => quiet.bootstrappingKey source evaluationKey scheme
  counters _ _ quiet := quiet.of_same rfl rfl rfl
  ledger _ _ quiet := quiet.of_same rfl rfl rfl

theorem quiet_close (quiet : s.Quiet) : s.close.Quiet := by
  refine ⟨quiet.answering, fun store found => ?_, fun ready => ?_⟩
  · cases found
  · cases ready

/-- Nothing is under way after an event, whatever it was. -/
theorem quiet_happen (quiet : s.Quiet) (e : Event) : (happen s e).Quiet := by
  have settles : Settles s (happen s e) := framed_happen
    (fun user request _ => keeps_createCircuit (fun _ _ quiet => quiet.of_same rfl rfl rfl) user request s)
    (fun _ _ quiet => quiet.of_same rfl rfl rfl) (fun _ => quiet_close) (fun _ quiet => quiet.of_same rfl rfl rfl)
    fun _ quiet => quiet.of_same rfl rfl rfl
  exact settles quiet

theorem quiet_after (quiet : s.Quiet) (events : List Event) : (s.after events).Quiet := by
  induction events generalizing s with
  | nil => exact quiet
  | cons e events ih => exact ih (quiet_happen quiet e)

end SealedFields.Service
