import SealedFields.Digest.Sha256
import SealedFields.Failure
import SealedFields.Text.Utf8

/-!
The ledger that encrypted fields are anchored on. It answers each call with a reference, or the call fails.
-/

namespace SealedFields

/-- One anchored field: whose it is, its name, its ciphertext and the text of its metadata. -/
structure Anchor where
  identity : Text
  fieldName : Text
  wire : Text
  metadata : Text
  deriving DecidableEq

def Anchor.parts (a : Anchor) : List Text := [a.identity, a.fieldName, a.wire, a.metadata]

/-- What a call of a ledger comes to. -/
inductive Reply where
  /-- The anchor is on the ledger. -/
  | anchored (reference : Text)
  /-- The call fails; the anchor may be on the ledger all the same. -/
  | failed (kept : Bool) (f : Failure)

namespace Reply

def isKept : Reply → Bool
  | .anchored _ => true
  | .failed kept _ => kept

def answer : Reply → Except Failure Text
  | .anchored reference => .ok reference
  | .failed _ f => .error f

end Reply

/-- What a ledger makes of each of its calls, of which the first has the number zero. -/
abbrev LedgerClient := Nat → Anchor → Reply

structure Ledger where
  client : LedgerClient
  calls : Nat
  anchors : List Anchor

/-- Do the parts of `a` come before those of `b`, the first difference deciding? -/
def Anchor.precedes (a b : Anchor) : Bool := before a.parts b.parts
where
  before : List Text → List Text → Bool
    | t :: ts, u :: us => t.precedes u || (!u.precedes t && before ts us)
    | _, _ => false

def Ledger.sorted (l : Ledger) : List Anchor := l.anchors.mergeSort fun a b => !b.precedes a

/-- A digest of what an anchor holds. -/
def Anchor.reference (a : Anchor) : Except Failure Text :=
  match (Text.join "|" a.parts).utf8? with
  | some bs => .ok ("0x" ++ Sha256.hex bs)
  | none => .error .unencodable

namespace Ledger

/-- A ledger in memory keeps every anchor, also one that has no reference. -/
def inMemory : Ledger where
  client _ a := match a.reference with
    | .ok reference => .anchored reference
    | .error f => .failed true f
  calls := 0
  anchors := []

def unreachable : Ledger where
  client _ a := .failed false (.field (.anchoringFailed "ledger unreachable" (some a.fieldName)))
  calls := 0
  anchors := []

def add (a : Anchor) (l : Ledger) : Except Failure Text × Ledger :=
  let reply := l.client l.calls a
  let anchors := if reply.isKept then l.anchors ++ [a] else l.anchors
  (reply.answer, { l with calls := l.calls + 1, anchors })

/-- A ledger gains the anchor exactly if it keeps it. -/
theorem anchors_add (a : Anchor) (l : Ledger) :
    (l.add a).2.anchors = l.anchors ++ if (l.client l.calls a).isKept then [a] else [] := by
  show (if (l.client l.calls a).isKept then l.anchors ++ [a] else l.anchors) = _
  split
  case isTrue => rfl
  case isFalse => exact (List.append_nil _).symm

end Ledger

end SealedFields
