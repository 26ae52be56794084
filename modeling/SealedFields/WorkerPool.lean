import SealedFields.Failure

/-!
A pool of workers for work on ciphertexts. The work is pure: a pool only bounds how much of it goes on at
once, and refuses it once it is closed.
-/

namespace SealedFields

structure WorkerPool where
  workers : Nat
  closed : Bool

namespace WorkerPool

variable {α β : Type}

def new (workers : Int) : Except Failure WorkerPool :=
  if workers < 1 then .error (.rejected "max_workers must be >= 1") else .ok ⟨workers.toNat, false⟩

def run (p : WorkerPool) (work : α → Except Failure β) (item : α) : Except Failure β :=
  if p.closed then .error (.closed "compute pool") else work item

/-- Work on many items, with every result in the items' order. -/
def runEach (p : WorkerPool) (work : α → Except Failure β) (items : List α) : List (Except Failure β) :=
  items.map (p.run work)

/-- Work on many items; the first failure in the items' order is everyone's. -/
def runAll (p : WorkerPool) (work : α → Except Failure β) (items : List α) : Except Failure (List β) :=
  items.mapM (p.run work)

def close (p : WorkerPool) : WorkerPool := { p with closed := true }

theorem run_close (p : WorkerPool) (work : α → Except Failure β) (item : α) :
    p.close.run work item = .error (.closed "compute pool") := rfl

end WorkerPool

end SealedFields
