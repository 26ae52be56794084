import SealedFields.Circuit.Plan

/-!
Running a circuit. Inputs are bound to wires, the plan's operations are evaluated one after the other,
and the declared outputs are collected. A plan may be supplied from elsewhere, so nothing the compiler
has checked is taken for granted.
-/

namespace SealedFields

abbrev Wires := List (Text × Ciphertext Float)

namespace Circuit

/-- Is an operation's exhausted result refreshed? The circuit decides where the gate says nothing. -/
def refreshes (c : Circuit) (op : PlannedOperation) : Bool :=
  match op.autoBootstrap with
  | .null => c.autoBootstrap
  | v => v.isTruthy

/-- Evaluates one operation on the wires bound so far, and binds its output. -/
def step (c : Circuit) (e : Engine Float) (limit : Int) (key : Option BootstrappingKey) (wires : Wires)
    (op : PlannedOperation) : Except Failure Wires := do
  let some inputs := op.inputs.mapM (Entries.get? wires)
    | .error (.field (.circuitDependency
        ("gate " ++ Text.ofNat op.index ++ " reached before its inputs were bound")
        (op.inputs.filter (!Entries.has wires ·))))
  let evaluation ← (e.evaluate op.operation inputs op.rotationAmount (c.refreshes op) key).mapError
    EngineFault.failure
  let result := evaluation.ciphertext
  if limit < result.depth then .error (.field (.circuitTooDeep result.depth limit (some c.name)))
  else return Entries.put op.output result wires

def collect (c : Circuit) (wires : Wires) : Except Failure Wires :=
  match c.outputs.mapM fun name => (Entries.get? wires name).map (name, ·) with
  | some found => .ok (Entries.ofWrites found)
  | none => .error .missingKey

/-- Runs a plan on bound inputs: exactly the declared ones must be bound. -/
def run (c : Circuit) (e : Engine Float) (limit : Int) (bound : Wires) (key : Option BootstrappingKey)
    (plan : Plan) : Except Failure Wires :=
  let missing := c.inputs.filter (!Entries.has bound ·)
  let undeclared := (bound.map (·.1)).filter (!c.inputs.contains ·)
  if !missing.isEmpty then .error (.field (.circuitDependency "circuit input not supplied" missing))
  else if !undeclared.isEmpty then
    .error (.field (.circuitDependency "supplied input is not declared by the circuit" undeclared))
  else do c.collect (← plan.operations.foldlM (c.step e limit key) bound)

def execute (c : Circuit) (e : Engine Float) (limit : Int) (bound : Wires)
    (key : Option BootstrappingKey) : Except Failure Wires := do
  c.run e limit bound key (← c.compile limit e.growth)

end Circuit

end SealedFields
