import SealedFields.Failure

/-!
Checking a request. A check looks at every part of the request and collects the places that are wrong; an
unknown scheme stops it at once. Checks are combined with `<$>` and `<*>`, so that the record they build
is a function of its parts.
-/

namespace SealedFields

/-- Where in a request something is wrong: the names and indices that lead there. -/
abbrev Place := List Text

inductive Checked (α : Type) where
  | ok (a : α)
  | bad (places : List Place)
  | stopped (f : Failure)

namespace Checked

variable {α β : Type}

def map (f : α → β) : Checked α → Checked β
  | ok a => ok (f a)
  | bad places => bad places
  | stopped e => stopped e

/-- Both checks together: what stops either stops both, and wrong places are collected in order. -/
def both : Checked (α → β) → Checked α → Checked β
  | ok f, ok a => ok (f a)
  | ok _, bad q => bad q
  | bad p, ok _ => bad p
  | bad p, bad q => bad (p ++ q)
  | stopped e, _ => stopped e
  | _, stopped e => stopped e

instance : Functor Checked := ⟨map, fun a => map (fun _ => a)⟩

instance : Seq Checked := ⟨fun f a => both f (a ())⟩

/-- One wrong place: the part that is being checked. -/
def wrong : Checked α := bad [[]]

def andThen (c : Checked α) (f : α → Checked β) : Checked β :=
  match c with
  | ok a => f a
  | bad places => bad places
  | stopped e => stopped e

def under (name : Text) : Checked α → Checked α
  | ok a => ok a
  | bad places => bad (places.map (name :: ·))
  | stopped e => stopped e

def ofOption? : Option α → Checked α
  | some a => ok a
  | none => wrong

/-- Each place once, as one text each, in ascending order. -/
def placeTexts (places : List Place) : List Text :=
  Text.sort ((places.map (Text.join ".")).eraseDups)

def toExcept : Checked α → Except Failure α
  | ok a => .ok a
  | bad places => .error (.invalidRequest (placeTexts places))
  | stopped e => .error e

end Checked

abbrev Check (α : Type) := Value → Checked α

namespace Check

variable {α : Type}

def required (es : Entries) (name : Text) (check : Check α) : Checked α :=
  match Entries.get? es name with
  | some v => (check v).under name
  | none => .bad [[name]]

def optional (es : Entries) (name : Text) (default : α) (check : Check α) : Checked α :=
  match Entries.get? es name with
  | some v => (check v).under name
  | none => .ok default

def nullable (check : Check α) : Check (Option α)
  | .null => .ok none
  | v => (check v).map some

def record (parts : Entries → Checked α) : Check α
  | .dict es => parts es
  | _ => .wrong

def itemsFrom (check : Check α) : (index : Nat) → List Value → Checked (List α)
  | _, [] => .ok []
  | i, v :: vs => .both (((check v).under (Text.ofNat i)).map .cons) (itemsFrom check (i + 1) vs)

def list (check : Check α) : Check (List α)
  | .list vs => itemsFrom check 0 vs
  | _ => .wrong

def any : Check Value := .ok

def dictionary : Check Entries
  | .dict es => .ok es
  | _ => .wrong

end Check

end SealedFields
