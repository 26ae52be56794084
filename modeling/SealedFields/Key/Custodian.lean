import SealedFields.Key.Wrapper

/-!
The custodian of wrapped key material: one record for each owner, the last one stored. A custodian may be
out of order; a call that fails may have taken effect all the same.
-/

namespace SealedFields

/-- What the custodian holds for one owner: only the public key is in the clear. -/
structure KeyRecord where
  owner : Owner
  publicKey : Bytes
  wrappedPrivateKey : Bytes
  wrappedEvaluationKey : Bytes
  deriving DecidableEq

def KeyRecord.describe (r : KeyRecord) : Entries :=
  [("identity", .text r.owner.identity), ("scheme", .text r.owner.scheme.tag),
    ("public_key_digest", .text (Sha256.hex r.publicKey)),
    ("encrypted_private_key_digest", .text (Sha256.hex r.wrappedPrivateKey)),
    ("encrypted_evaluation_key_digest", .text (Sha256.hex r.wrappedEvaluationKey)),
    ("sizes", .list [.int r.publicKey.length, .int r.wrappedPrivateKey.length,
      .int r.wrappedEvaluationKey.length])]

/-- How a call fails, and whether it takes effect before it does. -/
structure Outage where
  reason : Text
  applied : Bool

inductive CustodianCall where
  | store
  | retrieve
  deriving DecidableEq

def CustodianCall.name : CustodianCall → Text
  | .store => "store"
  | .retrieve => "retrieve"

/-- Records, how many calls of either kind there were, and which calls fail, by their numbers. -/
structure Custodian where
  records : List (Owner × KeyRecord)
  stores : Nat
  retrievals : Nat
  storeOutage : Nat → Option Outage
  retrievalOutage : Nat → Option Outage

namespace Custodian

def empty : Custodian := ⟨[], 0, 0, fun _ => none, fun _ => none⟩

def failure (call : CustodianCall) (o : Outage) : Failure := .field (.custodianFailed o.reason call.name)

def store (r : KeyRecord) (c : Custodian) : Except Failure Unit × Custodian :=
  let kept := { c with stores := c.stores + 1 }
  let stored := { kept with records := Entries.put r.owner r c.records }
  match c.storeOutage c.stores with
  | none => (.ok (), stored)
  | some o => (.error (failure .store o), if o.applied then stored else kept)

def retrieve (o : Owner) (c : Custodian) : Except Failure (Option KeyRecord) × Custodian :=
  let next := { c with retrievals := c.retrievals + 1 }
  match c.retrievalOutage c.retrievals with
  | none => (.ok (Entries.get? c.records o), next)
  | some outage => (.error (failure .retrieve outage), next)

/-- Asking changes no record. -/
theorem records_retrieve (o : Owner) (c : Custodian) : (c.retrieve o).2.records = c.records := by
  unfold retrieve
  split <;> rfl

/-- What was stored under an owner is what is retrieved, as long as both calls are answered. -/
theorem retrieve_store {r : KeyRecord} {c : Custodian} (hs : c.storeOutage c.stores = none)
    (hr : c.retrievalOutage c.retrievals = none) : ((c.store r).2.retrieve r.owner).1 = .ok (some r) := by
  simp [store, retrieve, hs, hr, Entries.get?_put_self]

/-- Calls from number `first` on fail before they take effect, `times` of them. -/
def outagesFrom (first times : Nat) (reason : Text) (call : Nat) : Option Outage :=
  if first ≤ call ∧ call < first + times then some ⟨reason, false⟩ else none

/-- The next calls of one kind fail before they take effect, and those after them do not. -/
def failNext (call : CustodianCall) (times : Nat) (reason : Text) (c : Custodian) : Custodian :=
  match call with
  | .store => { c with storeOutage := outagesFrom c.stores times reason }
  | .retrieve => { c with retrievalOutage := outagesFrom c.retrievals times reason }

/-- Puts one owner's record under another owner's name as well, if there is one. -/
def copy (source target : Owner) (c : Custodian) : Option Custodian :=
  (Entries.get? c.records source).map fun r => { c with records := Entries.put target r c.records }

end Custodian

end SealedFields
