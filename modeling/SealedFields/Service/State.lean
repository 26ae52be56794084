import SealedFields.Circuit.Run
import SealedFields.Key.Custody
import SealedFields.Service.Ledger
import SealedFields.Settings
import SealedFields.WorkerPool

/-!
The state of the service, and the operations it is made of. An operation that fails keeps what it changed
before it failed.
-/

namespace SealedFields

/-- A circuit as it is stored: whose it is, and its plan. -/
structure StoredCircuit where
  owner : Text
  circuit : Circuit
  plan : Plan

structure Counters where
  encryptions : Nat
  decryptions : Nat
  operations : Nat
  bootstraps : Nat
  circuitsCreated : Nat
  circuitsExecuted : Nat
  deriving DecidableEq

/-- The service with its collaborators, and the time and randomness it runs with. -/
structure Service where
  settings : Settings
  /-- Users and their identities. -/
  users : List (Text × Text)
  ledger : Option Ledger
  circuits : List (Text × StoredCircuit)
  counters : Counters
  /-- The schemes whose engines are up. -/
  engines : List Scheme
  pool : Option WorkerPool
  keys : Option KeyStore
  ready : Bool
  /-- The wrapper that was handed in, if one was. -/
  wrapper : Option KeyWrapper
  custodian : Custodian
  entropy : Entropy
  /-- The clock of the caches, in seconds. -/
  now : Float
  /-- Nanoseconds of Unix time. -/
  unixTime : Int
  waits : List Float
  /-- How many of the next attempts to start fail. -/
  outages : Nat
  /-- How many wrappers had to make up a master key. -/
  ephemeralKeys : Nat

/-- What the service does: it changes its state, and may fail. -/
abbrev ServiceM := ExceptT Failure (StateM Service)

namespace Service

variable {α : Type}

/-- How many nanoseconds a second has. -/
def nanoseconds : Nat := Nat.pow 10 9

/-- A service that is not yet started, at a time in whole seconds. -/
def new (settings : Settings) (users : List (Text × Text)) (ledger : Option Ledger) (entropy : Entropy)
    (unixTime : Int) (outages : Nat) : Service where
  settings
  users
  ledger
  circuits := []
  counters := ⟨0, 0, 0, 0, 0, 0⟩
  engines := []
  pool := none
  keys := none
  ready := false
  wrapper := none
  custodian := .empty
  entropy
  now := 0.0
  unixTime := unixTime * nanoseconds
  waits := []
  outages
  ephemeralKeys := 0

def engine (s : Service) (scheme : Scheme) : Except Failure Parameters :=
  if s.engines.contains scheme then .ok (.registered scheme)
  else .error (.field (.bringUpFailed "engine not initialized" (some scheme.tag)))

def keySource (s : Service) : KeySource := ⟨s.engine, none⟩

/-- Time passes on the clock of the caches. -/
def advance (seconds : Float) (s : Service) : Service := { s with now := s.now + seconds }

/-- Time passes on the wall clock, in whole seconds. The clock of the caches is another one, and need not
agree with it. -/
def advanceWallClock (seconds : Float) (s : Service) : Service :=
  { s with unixTime := s.unixTime + (Number.Binary64.ofFloat seconds).truncate?.getD 0 * nanoseconds }

def metrics (s : Service) : Entries :=
  let work : Entries := [("encryptions", .int s.counters.encryptions),
    ("decryptions", .int s.counters.decryptions),
    ("homomorphic_operations", .int s.counters.operations), ("bootstraps", .int s.counters.bootstraps),
    ("circuits_created", .int s.counters.circuitsCreated),
    ("circuits_executed", .int s.counters.circuitsExecuted)]
  let caches : Entries := match s.keys with
    | some k => k.stats
    | none => []
  let workers : Nat := match s.pool with
    | some p => p.workers
    | none => 0
  let state : Entries := [("worker_pool_size", .int workers), ("initialized", .bool s.ready)]
  work ++ caches ++ state

def pureResult (r : Except Failure α) : ServiceM α := ExceptT.mk (pure r)

def count (f : Counters → Counters) : ServiceM Unit := modify fun s => { s with counters := f s.counters }

def runPooled (work : Except Failure α) : ServiceM α := do
  match (← get).pool with
  | some p => pureResult (p.run (fun _ => work) ())
  | none => throw (.closed "compute pool")

def outcome (m : ServiceM α) : ServiceM (Except Failure α) := ExceptT.mk do return .ok (← m.run)

def withKeys (f : KeySource → Custody → α × Custody) : ServiceM α := do
  let s ← get
  match s.keys with
  | none => throw (.closed "key-cache")
  | some store =>
    let (a, c) := f s.keySource ⟨store, s.custodian, s.entropy, s.now, s.waits⟩
    set { s with keys := some c.store, custodian := c.custodian, entropy := c.entropy, waits := c.waits }
    return a

def keysFor (errand : Errand) (o : Owner) : ServiceM KeyPair := do
  pureResult (← withKeys fun source c => c.ask source errand o)

/-- The identity of a user; an empty one is none. -/
def identityOf (user : Text) : ServiceM Text := do
  match (Entries.get? (← get).users user).filter (!·.isEmpty) with
  | some identity => return identity
  | none => throw (.field (.userNotFound user))

/-- The scheme of a request that names one, or the one that is set. -/
def schemeOf (requested : Option Scheme) : ServiceM Scheme := do
  match requested with
  | some s => return s
  | none => pureResult (Scheme.parse (.text (← get).settings.defaultScheme))

def accept (check : Check α) (request : Value) : ServiceM α := pureResult (check request).toExcept

end Service

end SealedFields
