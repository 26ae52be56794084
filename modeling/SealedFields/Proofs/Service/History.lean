import SealedFields.Proofs.Service.Requests

/-!
# Histories of the service

Between two requests of one user anything may happen: requests of any user, time that passes, a new state
of the collaborators, closing and starting. The invariant of the service holds after every history, and
whatever only grows has grown.
-/

namespace SealedFields.Service

/-! ## 1. Events -/

/-- What may happen to the service. -/
inductive Event where
  | encryptField (user : Text) (request : Value)
  | decryptField (user : Text) (request : Value)
  | encryptBatch (user : Text) (request : Value)
  | decryptBatch (user : Text) (request : Value)
  | decryptPacked (user : Text) (request : Value)
  | operate (user : Text) (request : Value)
  | createCircuit (user : Text) (request : Value)
  | executeCircuit (user id : Text) (inputs : Entries) (scheme : Option Value)
  | start
  | close
  | advance (seconds : Float)
  | advanceWallClock (seconds : Float)
  | directory (users : List (Text × Text))
  | ledger (l : Option Ledger)

/-- What an event leaves behind, whether a request in it was answered or refused. -/
def happen (s : Service) : Event → Service
  | .encryptField user request => ((Service.encryptField user request).run s).2
  | .decryptField user request => ((Service.decryptField user request).run s).2
  | .encryptBatch user request => ((Service.encryptBatch user request).run s).2
  | .decryptBatch user request => ((Service.decryptBatch user request).run s).2
  | .decryptPacked user request => ((Service.decryptPacked user request).run s).2
  | .operate user request => ((Service.operate user request).run s).2
  | .createCircuit user request => ((Service.createCircuit user request).run s).2
  | .executeCircuit user id inputs scheme => ((Service.executeCircuit user id inputs scheme).run s).2
  | .start => (Service.start.run s).2
  | .close => s.close
  | .advance seconds => s.advance seconds
  | .advanceWallClock seconds => s.advanceWallClock seconds
  | .directory users => { s with users }
  | .ledger l => { s with ledger := l }

/-- The service after a history, its first event first. -/
def after (s : Service) (events : List Event) : Service := events.foldl happen s

/-- An event that leaves a user's identity as given. -/
def Event.Fixes (user : Text) (identity : Option Text) : Event → Prop
  | .directory users => Entries.get? users user = identity
  | _ => True

variable {s : Service} {w : KeyWrapper} {user : Text} {e : Event} {events : List Event}

/-! ## 2. One event -/

/-- What requests keep an event keeps, if what is no request keeps it, too. -/
theorem framed_happen {R : Service → Service → Prop} [LedgerFramed R]
    (creates : ∀ user request, e = .createCircuit user request → R s ((createCircuit user request).run s).2)
    (directory : ∀ users, e = .directory users → R s { s with users }) (close : e = .close → R s s.close)
    (clock : ∀ now, R s { s with now }) (wallClock : ∀ unixTime, R s { s with unixTime }) : R s (happen s e) := by
  cases e with
  | encryptField user request => exact keeps_encryptField user request s
  | decryptField user request => exact keeps_decryptField user request s
  | encryptBatch user request => exact keeps_encryptBatch user request s
  | decryptBatch user request => exact keeps_decryptBatch user request s
  | decryptPacked user request => exact keeps_decryptPacked user request s
  | operate user request => exact keeps_operate user request s
  | createCircuit user request => exact creates user request rfl
  | executeCircuit user id inputs scheme => exact keeps_executeCircuit user id inputs scheme s
  | start => exact Framed.start s
  | close => exact close rfl
  | advance seconds => exact clock _
  | advanceWallClock seconds => exact wallClock _
  | directory users => exact directory users rfl
  | ledger l => exact LedgerFramed.ledger s l

theorem advances_happen (fixed : e.Fixes user (Entries.get? s.users user)) :
    Advances w user s (happen s e) := by
  refine framed_happen (fun user' request _ => ?_) (fun users change => ?_) (fun _ => advances_close s) (fun now => ?_)
    fun unixTime => Same.advances {} rfl
  · exact keeps_createCircuit (fun _ _ => Same.advances {} rfl) user' request s
  · subst change
    exact Same.advances {} fixed
  · -- The key store is in order at any time of its clock.
    intro sound
    refine ⟨⟨sound.wraps, sound.exact, sound.answering, sound.pool, ?_, ?_⟩, rfl, rfl, id, id⟩
    · intro store found
      have before := sound.store store found
      exact ⟨before.new, before.steady.at now s.waits, before.wrapper_eq, before.policy_eq⟩
    · intro ready
      have running := sound.running ready
      exact ⟨running.up, running.engines, running.pool, running.keys, running.tries⟩

theorem sound_happen (sound : s.Sound w) (e : Event) : (happen s e).Sound w := by
  by_cases change : ∃ users, e = .directory users
  · -- The invariant does not speak of users, so any change of theirs keeps it.
    obtain ⟨users, rfl⟩ := change
    have same : Same s { s with users } := {}
    exact same.sound sound
  · have fixed : e.Fixes [] (Entries.get? s.users []) := by
      unfold Event.Fixes
      split
      case h_1 users => exact (change ⟨users, rfl⟩).elim
      case h_2 => trivial
    exact (advances_happen fixed sound).1

/-! ## 3. Histories -/

theorem sound_after (sound : s.Sound w) (events : List Event) : (s.after events).Sound w := by
  induction events generalizing s with
  | nil => exact sound
  | cons e events ih => exact ih (sound_happen sound e)

/-- A history in which a user's identity stays the same leads to a state that has grown for this user. -/
theorem advances_after (fixed : ∀ e ∈ events, e.Fixes user (Entries.get? s.users user)) :
    Advances w user s (s.after events) := by
  induction events generalizing s with
  | nil => exact Std.Refl.refl s
  | cons e events ih =>
    intro sound
    obtain ⟨sound', grows⟩ := advances_happen (fixed e List.mem_cons_self) sound
    -- The identity is the same after the first event, so that the others are measured by it too.
    have rest : ∀ e' ∈ events, e'.Fixes user (Entries.get? (happen s e).users user) := by
      intro e' member
      rw [grows.identity_eq]
      exact fixed e' (List.mem_cons_of_mem _ member)
    obtain ⟨sound'', grows'⟩ := ih rest sound'
    exact ⟨sound'', grows.trans grows'⟩

end SealedFields.Service
