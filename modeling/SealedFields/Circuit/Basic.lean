import SealedFields.Engine.Operation
import SealedFields.Schema.Scalars

/-!
Circuits: gates over named wires. A wire is a circuit input or the output of a gate.
-/

namespace SealedFields

structure Gate where
  operation : Text
  inputs : List Text
  output : Text
  parameters : Entries
  deriving Inhabited

structure Circuit where
  name : Text
  inputs : List Text
  outputs : List Text
  gates : List Gate
  /-- Are exhausted results refreshed, where a gate says nothing else? -/
  autoBootstrap : Bool
  deriving Inhabited

namespace Gate

/-- The operation that the gate names, in any case. -/
def operation? (g : Gate) : Option Operation := Operation.ofName? g.operation.lower

def refuseAmount (g : Gate) : FieldError :=
  .unsupportedOperation g.operation (some "rotation amount must be an integer")

/-- By how much the gate rotates: one place if it does not say, and otherwise an integer. -/
def rotationAmount (g : Gate) : Except FieldError Int :=
  match Entries.get? g.parameters "amount" with
  | none => .ok 1
  | some (.int i) => .ok i
  | some _ => .error g.refuseAmount

/-- What the gate says about refreshing exhausted results, `null` if nothing. -/
def autoBootstrap (g : Gate) : Value := (Entries.get? g.parameters "auto_bootstrap").getD .null

def check : Check Gate := Check.record fun es =>
  Gate.mk <$> Check.required es "operation" Check.text
    <*> Check.required es "inputs" (Check.list Check.text)
    <*> Check.required es "output" Check.text
    <*> Check.optional es "parameters" [] Check.dictionary

end Gate

namespace Circuit

def checkInputs : Check (List Text) := fun v =>
  (Check.list Check.text v).andThen fun names => if names.Nodup then .ok names else .wrong

def check : Check Circuit := Check.record fun es =>
  Circuit.mk <$> Check.required es "name" Check.text
    <*> Check.required es "inputs" checkInputs
    <*> Check.required es "outputs" (Check.list Check.text)
    <*> Check.required es "gates" (Check.list Gate.check)
    <*> Check.optional es "auto_bootstrap" true Check.bool

def producer? (c : Circuit) (wire : Text) : Option Nat := c.gates.findIdx? (·.output = wire)

def binds (c : Circuit) (wire : Text) : Bool := c.inputs.contains wire || (c.producer? wire).isSome

def sources (c : Circuit) (index : Nat) : List Nat :=
  match c.gates[index]? with
  | some g => g.inputs.filterMap c.producer?
  | none => []

end Circuit

end SealedFields
