import SealedFields.Failure

/-!
A cache whose entries expire, and whose loads are shared. The first caller that misses starts a load, and
later callers that miss the same key wait for it, as long as they are on the same flight: callers whose
loads differ use different flights, so that none receives the other's outcome. A load goes on when a
caller gives up, a failed load leaves nothing behind, and closing the cache cancels all loads.

The cache is a machine that is told what happens: a request, the end of a load, a caller that gives up,
or a command. Callers and loads are known by numbers.
-/

namespace SealedFields

/-- A cached value and when it expires. A load may answer that there is nothing to hold. -/
structure CacheEntry (α : Type) where
  value : Option α
  expires : Float

def CacheEntry.isExpired (now : Float) (e : CacheEntry α) : Bool := now ≥ e.expires

/-- A load under way, with the callers that wait for it. -/
structure Load (κ φ : Type) where
  id : Nat
  key : κ
  flight : φ
  waiting : List Nat

/-- The load, with one more caller if it is the one with the number `id`. -/
def Load.joinedBy {κ φ : Type} (l : Load κ φ) (id caller : Nat) : Load κ φ :=
  if l.id = id then { l with waiting := l.waiting ++ [caller] } else l

/-- Entries, the loads under way, and counts of what was asked. -/
structure Cache (κ φ α : Type) where
  name : Text
  ttl : Float
  entries : List (κ × CacheEntry α)
  loads : List (Load κ φ)
  nextLoad : Nat
  closed : Bool
  hits : Nat
  misses : Nat

namespace Cache

variable {κ φ α : Type} [DecidableEq κ] [DecidableEq φ]

inductive Reply (α : Type) where
  | refused (f : Failure)
  | hit (value : α)
  /-- The caller waits for a load, which it may have to start itself. -/
  | waits (load : Nat) (starts : Bool)

/-- What the end of a load tells each caller that waited for it. -/
abbrev Outcome (α : Type) := Except Failure (Option α)

def Reply.started? : Reply α → Option Nat
  | .waits load true => some load
  | _ => none

/-- What a caller knows in the end. One who waited and was not told had the load cancelled. -/
def Reply.answer (told : List (Nat × Outcome α)) (caller : Nat) : Reply α → Outcome α
  | .refused f => .error f
  | .hit v => .ok (some v)
  | .waits .. => (Entries.get? told caller).getD (.error .cancelled)

/-- What a caller knows in the end whose load always answers something. -/
def Reply.settled (told : List (Nat × Outcome α)) (caller : Nat) (r : Reply α) : Except Failure α :=
  match r.answer told caller with
  | .ok (some v) => .ok v
  | .ok none => .error .cancelled
  | .error f => .error f

/-- An empty cache; its entries must live for some time. -/
def empty (ttl : Float) (name : Text) : Except Failure (Cache κ φ α) :=
  if ttl ≤ 0.0 then .error (.rejected "ttl_seconds must be positive")
  else .ok ⟨name, ttl, [], [], 0, false, 0, 0⟩

def size (c : Cache κ φ α) : Nat := c.entries.length

def purge (now : Float) (c : Cache κ φ α) : Nat × Cache κ φ α :=
  let (expired, live) := c.entries.partition fun e => e.2.isExpired now
  (expired.length, { c with entries := live })

omit [DecidableEq κ] [DecidableEq φ] in
/-- What lives is kept, and nothing else. -/
theorem mem_entries_purge {now : Float} {c : Cache κ φ α} {e : κ × CacheEntry α} :
    e ∈ (c.purge now).2.entries ↔ e ∈ c.entries ∧ e.2.isExpired now = false := by
  simp [purge, List.partition_eq_filter_filter]

/-- The live value under a key; an expired entry is dropped. -/
def get (now : Float) (key : κ) (c : Cache κ φ α) : Option α × Cache κ φ α :=
  match Entries.get? c.entries key with
  | none => (none, c)
  | some e =>
    if e.isExpired now then (none, { c with entries := Entries.erase c.entries key })
    else (e.value, c)

def load? (c : Cache κ φ α) (key : κ) (flight : φ) : Option (Load κ φ) :=
  c.loads.find? fun l => l.key = key ∧ l.flight = flight

def request (now : Float) (key : κ) (flight : φ) (caller : Nat) (c : Cache κ φ α) :
    Reply α × Cache κ φ α :=
  if c.closed then (.refused (.closed c.name), c)
  else
    let (_, c) := c.purge now
    let (found, c) := c.get now key
    match found with
    | some v => (.hit v, { c with hits := c.hits + 1 })
    | none =>
      match c.load? key flight with
      | some l => (.waits l.id false, { c with loads := c.loads.map (·.joinedBy l.id caller) })
      | none => (.waits c.nextLoad true, { c with
          misses := c.misses + 1
          nextLoad := c.nextLoad + 1
          loads := c.loads ++ [⟨c.nextLoad, key, flight, [caller]⟩] })

theorem request_of_closed {c : Cache κ φ α} (h : c.closed = true) (now : Float) (key : κ) (flight : φ)
    (caller : Nat) : c.request now key flight caller = (.refused (.closed c.name), c) := by
  simp [request, h]

/-- A load ends: its value is kept, its failure is not, and every caller that waits is told. -/
def complete (now : Float) (id : Nat) (result : Outcome α) (c : Cache κ φ α) :
    List (Nat × Outcome α) × Cache κ φ α :=
  match c.loads.find? (·.id = id) with
  | none => ([], c)
  | some l =>
    let entries := match result with
      | .ok v => Entries.put l.key ⟨v, now + c.ttl⟩ c.entries
      | .error _ => c.entries
    (l.waiting.map (·, result), { c with entries, loads := c.loads.filter (·.id ≠ id) })

/-- A caller gives up; the load it waits for goes on. -/
def giveUp (caller : Nat) (c : Cache κ φ α) : Cache κ φ α :=
  { c with loads := c.loads.map fun l => { l with waiting := l.waiting.filter (· ≠ caller) } }

/-- Drops what is under a key. A load under way goes on. -/
def invalidate (key : κ) (c : Cache κ φ α) : Cache κ φ α :=
  { c with entries := Entries.erase c.entries key }

/-- Closing begins: requests are refused from now on. Loads under way are told to stop, and each ends in
its own time. -/
def beginClose (c : Cache κ φ α) : Cache κ φ α := { c with closed := true }

/-- Closing ends once no load is under way: every entry is dropped. -/
def endClose (c : Cache κ φ α) : Cache κ φ α := { c with loads := [], entries := [] }

/-- Cancels every load, drops every entry, and refuses requests from now on. Answers the callers whose
loads were cancelled. -/
def close (c : Cache κ φ α) : List Nat × Cache κ φ α :=
  (c.loads.flatMap Load.waiting, c.beginClose.endClose)

omit [DecidableEq κ] [DecidableEq φ] in
theorem size_close (c : Cache κ φ α) : c.close.2.size = 0 := rfl

omit [DecidableEq κ] [DecidableEq φ] in
theorem loads_close (c : Cache κ φ α) : c.close.2.loads = [] := rfl

end Cache

end SealedFields
