import SealedFields.Circuit.Order
import SealedFields.Engine.Report

/-!
Compiling a circuit into a plan: every gate is checked, the gates are put in order, and multiplicative
depth and noise growth are estimated before anything is computed.
-/

namespace SealedFields

structure PlannedOperation where
  index : Nat
  operation : Operation
  inputs : List Text
  output : Text
  depth : Nat
  rotationAmount : Int
  /-- What the gate says about refreshing, `null` if nothing. -/
  autoBootstrap : Value
  deriving Inhabited

structure Plan where
  operations : List PlannedOperation
  inputCount : Nat
  outputCount : Nat
  depth : Nat
  noiseGrowth : Float
  deriving Inhabited

namespace Circuit

/-- Refuses a gate with an unknown operation or a wrong number of inputs. -/
def checkGate (g : Gate) : Except FieldError Unit :=
  match g.operation? with
  | none => .error (.unsupportedOperation g.operation none)
  | some op =>
    if op.accepts g.inputs.length then .ok ()
    else .error (.wrongArity op.name op.describeArity g.inputs.length)

/-- The depth of a gate's result from those of its inputs, if all are known. -/
def gateDepth? (depths : List (Text × Nat)) (op : Operation) (inputs : List Text) : Option Nat :=
  (inputs.mapM (Entries.get? depths)).map fun ds =>
    ds.foldl max 0 + if op = .multiply then 1 else 0

/-- The factor by which a gate makes the noise estimate grow. -/
def growthFactor? (growth : GrowthFactors Float) : Operation → Option Float
  | .multiply => some growth.multiply
  | .add => some growth.add
  | .rotate => some growth.rotate
  | .subtract | .negate | .bootstrap => none

def planGate (depths : List (Text × Nat)) (index : Nat) (g : Gate) : Except Failure PlannedOperation := do
  let some op := g.operation? | .error (.field (.unsupportedOperation g.operation none))
  let some depth := gateDepth? depths op g.inputs | .error .missingKey
  let amount ← if op = .rotate then g.rotationAmount.mapError Failure.field else .ok 1
  return { index, operation := op, inputs := g.inputs, output := g.output, depth,
           rotationAmount := amount, autoBootstrap := g.autoBootstrap }

def planGates (depths : List (Text × Nat)) : List (Nat × Gate) → Except Failure (List PlannedOperation)
  | [] => .ok []
  | (index, g) :: rest => do
    let op ← planGate depths index g
    let ops ← planGates (Entries.put op.output op.depth depths) rest
    return op :: ops

def noiseGrowth (growth : GrowthFactors Float) (ops : List PlannedOperation) : Float :=
  ops.foldl (fun noise op =>
    match growthFactor? growth op.operation with
    | some factor => noise * factor
    | none => noise) baseNoise

def planDepth (ops : List PlannedOperation) : Nat := ops.foldl (fun d op => max d op.depth) 0

/-- Compiles a circuit whose depth must not exceed `limit`. -/
def compile (c : Circuit) (limit : Int) (growth : GrowthFactors Float) : Except Failure Plan := do
  (c.gates.forM checkGate).mapError Failure.field
  let order ← c.order.mapError Failure.field
  let ops ← planGates (c.inputs.map (·, 0)) (order.filterMap fun i => (c.gates[i]?).map (i, ·))
  let depth := planDepth ops
  if limit < depth then .error (.field (.circuitTooDeep depth limit (some c.name)))
  else return {
    operations := ops
    inputCount := c.inputs.length
    outputCount := c.outputs.length
    depth
    noiseGrowth := noiseGrowth growth ops }

/-- What is wrong with a circuit; nothing if it compiles. -/
def problems (c : Circuit) (limit : Int) (growth : GrowthFactors Float) : Except Failure (List Text) :=
  match c.compile limit growth with
  | .ok _ => .ok []
  | .error (.field e) => .ok [e.message]
  | .error f => .error f

end Circuit

def PlannedOperation.toEntries (op : PlannedOperation) : Entries :=
  [("index", .int op.index), ("type", .text op.operation.name), ("inputs", .list (op.inputs.map .text)),
    ("output", .text op.output), ("depth", .int op.depth), ("rotation_amount", .int op.rotationAmount),
    ("auto_bootstrap", op.autoBootstrap)]

end SealedFields
