import SealedFields.Text.Case
import SealedFields.Number.Decimal

/-!
The operations on ciphertexts, by name, and how many inputs each takes.
-/

namespace SealedFields

/-- An operation that a circuit's gate or a request can name. -/
inductive Operation where
  | add
  | multiply
  | subtract
  | negate
  | rotate
  | bootstrap
  deriving DecidableEq, Inhabited

namespace Operation

def all : List Operation := [.add, .multiply, .subtract, .negate, .rotate, .bootstrap]

def name : Operation → Text
  | .add => "add"
  | .multiply => "multiply"
  | .subtract => "subtract"
  | .negate => "negate"
  | .rotate => "rotate"
  | .bootstrap => "bootstrap"

def ofName? (t : Text) : Option Operation := all.find? (·.name = t)

theorem ofName?_name (op : Operation) : ofName? op.name = some op := by cases op <;> decide

def least : Operation → Nat
  | .add | .multiply | .subtract => 2
  | .negate | .rotate | .bootstrap => 1

/-- Sums and products take any number of inputs from the least one on. -/
def isUnbounded : Operation → Bool
  | .add | .multiply => true
  | _ => false

def accepts (op : Operation) (count : Int) : Bool :=
  if op.isUnbounded then (op.least : Int) ≤ count else count = op.least

def describeArity (op : Operation) : Text :=
  (if op.isUnbounded then "at least " else "exactly ") ++ Text.ofNat op.least

end Operation

end SealedFields
