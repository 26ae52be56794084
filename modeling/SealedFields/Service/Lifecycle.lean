import SealedFields.Service.State

/-!
Starting and closing the service. The first request starts it; a start that fails is retried. Closing
keeps what is stored and counted.
-/

namespace SealedFields.Service

def startPolicy (s : Settings) : Retry.Config :=
  { Retry.Config.standard with
    maxRetries := s.initMaxRetries
    baseDelay := s.initRetryBaseDelaySeconds
    strategy := some .exponential
    retryable := [.bringUp] }

/-- The wrapper that was handed in, or that of the master key that is set, or else one that made up its
own. -/
def makeWrapper : ServiceM KeyWrapper := do
  let s ← get
  match s.wrapper with
  | some wrapper => return wrapper
  | none =>
    match ← pureResult s.settings.masterKey with
    | some key => pureResult (KeyWrapper.ofMasterKey key)
    | none => do
      set { s with ephemeralKeys := s.ephemeralKeys + 1 }
      return .ephemeral s.ephemeralKeys

/-- The engines, if all registered parameters are in order. -/
def startEngines : ServiceM Unit := do
  for scheme in Scheme.all do
    pureResult ((Parameters.registered scheme).validate.mapError .field)
  modify fun s => { s with engines := Scheme.all }

def startPool : ServiceM Unit := do
  if (← get).pool.isNone then
    let pool ← pureResult (WorkerPool.new (← get).settings.workerPoolSize)
    modify fun s => { s with pool := some pool }

def startKeys : ServiceM Unit := do
  if (← get).keys.isNone then
    let wrapper ← makeWrapper
    let s := (← get).settings
    let keys ← pureResult
      (KeyStore.new wrapper s.keyCacheTtlSeconds s.bootstrapKeyCacheTtlSeconds s.custodianMaxRetries)
    modify fun s => { s with keys := some keys }

def bringUp : ServiceM Unit := do
  let s ← get
  match s.outages with
  | n + 1 => do
    set { s with outages := n }
    throw (.field (.bringUpFailed "engine unavailable" none))
  | 0 => do
    startEngines
    startPool
    startKeys

/-- Starts the service unless it is ready. -/
def start : ServiceM Unit := do
  let s ← get
  if s.ready then return
  let work : Retry.Work (StateM Service) Unit Unit := ⟨"start", fun _ => bringUp.run⟩
  let wait (delay : Float) : StateM Service (Except Failure Unit) := do
    modify fun s => { s with waits := s.waits ++ [delay] }
    return .ok ()
  ExceptT.mk ((startPolicy s.settings).executeSuspended wait work ())
  modify fun s => { s with ready := true }

/-- Cancels what is under way; engines stay up. -/
def close (s : Service) : Service := { s with keys := none, pool := none, ready := false }

end SealedFields.Service
