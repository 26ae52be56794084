import SealedFields.Failure
import SealedFields.Text.Case

/-!
The homomorphic encryption schemes that the service knows. Requests name a scheme by its tag, in either
case.
-/

namespace SealedFields

inductive Scheme where
  | tfhe
  | ckks
  | bgv
  | bfv
  deriving DecidableEq, Inhabited

namespace Scheme

/-- Every scheme, in the order in which their engines are brought up. -/
def all : List Scheme := [.tfhe, .ckks, .bgv, .bfv]

def tag : Scheme → Text
  | .tfhe => "tfhe"
  | .ckks => "ckks"
  | .bgv => "bgv"
  | .bfv => "bfv"

def ofTag? (t : Text) : Option Scheme := all.find? (·.tag = t)

theorem ofTag?_tag (s : Scheme) : ofTag? s.tag = some s := by cases s <;> decide

theorem tag_injective {s t : Scheme} (h : s.tag = t.tag) : s = t := by
  have hs := ofTag?_tag s
  rw [h, ofTag?_tag t] at hs
  exact (Option.some.inj hs).symm

/-- Reads the text of any value as a tag, without regard to case. -/
def parse (v : Value) : Except Failure Scheme :=
  match v.display? with
  | none => .error .badValue
  | some t =>
    match ofTag? t.lower with
    | some s => .ok s
    | none => .error (.field (.unknownScheme t))

end Scheme

end SealedFields
