import SealedFields.Number.Shortest
import SealedFields.Retry.Delay

/-!
Running work under a retry policy. Work may be run to the end at once, be wrapped so that it looks like
work without failures, or be suspended while it waits; all three make the same calls and the same waits.

A retry is announced before it is waited for. Where the announcement cannot be written, or the clock does
not take the delay, the run ends with that failure and not with its work's own.
-/

namespace SealedFields.Retry

/-! ## 1. Notices -/

def numeral (i : Int) : Except Failure Text :=
  match Decimal.ofInt? i with
  | some cs => .ok (Text.ofChars cs)
  | none => .error .numeralTooLong

/-- The line that announces a retry. -/
def Config.notice (c : Config) (label : Text) (attempt : Nat) (delay : Float) (f : Failure) :
    Except Failure Text := do
  let next ← numeral (attempt + 1)
  let retries ← numeral c.maxRetries
  let cause ← f.told
  return "Retry " ++ next ++ "/" ++ retries ++ " for " ++ label ++ " after " ++ Text.ofFloatHundredths delay ++
    "s: " ++ cause

/-- The line that tells of the last attempt. -/
def Config.lastNotice (c : Config) (label : Text) : Except Failure Text := do
  let retries ← numeral c.maxRetries
  return "All " ++ retries ++ " retries exhausted for " ++ label

/-! ## 2. Verdicts -/

inductive Verdict where
  | giveUp (f : Failure)
  | wait (delay : Float)

/-- Is the failure one to retry after? Work that was abandoned is left alone. -/
def Config.retries (c : Config) (kind : FailureKind) : Bool := kind.isWithin .failure && c.shouldRetry kind

/-- The delay after a failed attempt, once it is announced. -/
def Config.announced (c : Config) (label : Text) (attempt : Nat) (f : Failure) : Except Failure Float := do
  let delay ← c.delay label attempt
  let _ ← c.notice label attempt delay f
  return delay

/-- A failure that is not retried, or comes after the last retry, is final. -/
def Config.verdict (c : Config) (label : Text) (attempt : Nat) (f : Failure) : Verdict :=
  if !c.retries f.kind then .giveUp f
  else if c.maxRetries ≤ attempt then
    match c.lastNotice label with
    | .ok _ => .giveUp f
    | .error g => .giveUp g
  else
    match c.announced label attempt f with
    | .ok delay => .wait delay
    | .error g => .giveUp g

/-! ## 3. Runs -/

/-- Work that may fail, with the name that its jitter depends on. -/
structure Work (m : Type → Type) (β α : Type) where
  name : Text
  body : β → m (Except Failure α)

variable {m : Type → Type} [Monad m] {α β : Type}

/-- The same work as calls that can be suspended. -/
def Work.suspendable (w : Work m β α) : Work m β α :=
  ⟨w.name, fun args => do return (← w.body args).mapError .ofSuspendable⟩

/-- Attempts from number `attempt` on, at most `left` of them, waiting in between. -/
def Config.attempts (c : Config) (wait : Float → m (Except Failure Unit)) (w : Work m β α) (args : β) :
    (left attempt : Nat) → m (Except Failure α)
  | 0, _ => pure (.error .noAttempt)
  | left + 1, attempt => do
    match ← w.body args with
    | .ok a => pure (.ok a)
    | .error f =>
      match c.verdict w.name attempt f with
      | .giveUp f => pure (.error f)
      | .wait delay => do
        match ← wait delay with
        | .ok () => c.attempts wait w args left (attempt + 1)
        | .error f => pure (.error f)

def Config.execute (c : Config) (wait : Float → m (Except Failure Unit)) (w : Work m β α) (args : β) :
    m (Except Failure α) :=
  c.attempts wait w args (c.maxRetries + 1).toNat 0

def Config.wrap (c : Config) (wait : Float → m (Except Failure Unit)) (w : Work m β α) : Work m β α :=
  ⟨w.name, c.execute wait w⟩

inductive Progress (α : Type) where
  | finished (r : Except Failure α)
  /-- Waiting; then attempt `next` follows. -/
  | waiting (delay : Float) (next : Nat)

/-- One attempt, up to where the work is finished or has to wait. -/
def Config.advance (c : Config) (w : Work m β α) (args : β) (attempt : Nat) : m (Progress α) :=
  if c.maxRetries < attempt then pure (.finished (.error .noAttempt))
  else do
    match ← w.body args with
    | .ok a => pure (.finished (.ok a))
    | .error f =>
      match c.verdict w.name attempt f with
      | .giveUp f => pure (.finished (.error f))
      | .wait delay => pure (.waiting delay (attempt + 1))

/-- Resumes suspendable work after every wait, at most `left` times. -/
def Config.resume (c : Config) (wait : Float → m (Except Failure Unit)) (w : Work m β α) (args : β) :
    (left attempt : Nat) → m (Except Failure α)
  | 0, _ => pure (.error .noAttempt)
  | left + 1, attempt => do
    match ← c.advance w args attempt with
    | .finished r => pure r
    | .waiting delay next => do
      match ← wait delay with
      | .ok () => c.resume wait w args left next
      | .error f => pure (.error f)

def Config.executeSuspended (c : Config) (wait : Float → m (Except Failure Unit)) (w : Work m β α) (args : β) :
    m (Except Failure α) :=
  c.resume wait w args ((c.maxRetries + 1).toNat + 1) 0

end SealedFields.Retry
