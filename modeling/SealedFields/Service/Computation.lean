import SealedFields.Noise
import SealedFields.Service.Lifecycle
import SealedFields.Service.Request

/-!
Computing on ciphertexts without decrypting them: single operations, and circuits that are stored once and
run by their owner.
-/

namespace SealedFields.Service

def bootstrappingKeyFor (keys : KeyPair) (scheme : Scheme) : ServiceM BootstrappingKey := do
  pureResult (← withKeys fun source c => c.bootstrappingKey source keys.evaluationKey scheme)

def operate (user : Text) (request : Value) : ServiceM ComputationResult := do
  let r ← accept OperationRequest.check request
  start
  let identity ← identityOf user
  let scheme ← schemeOf r.scheme
  let p ← pureResult ((← get).engine scheme)
  let inputs ← pureResult (r.inputs.mapM fun t => Wire.deserialize (.text t))
  let keys ← keysFor .create ⟨identity, scheme⟩
  let refreshes := r.operation = Operation.name .bootstrap
  let key ← if refreshes || r.autoBootstrap then some <$> bootstrappingKeyFor keys scheme else pure none
  let evaluation ← runPooled ((p.engine.evaluateNamed r.operation inputs r.rotationAmount r.autoBootstrap
    key).mapError EngineFault.failure)
  count fun c => { c with
    operations := c.operations + 1
    bootstraps := if evaluation.refreshed || refreshes then c.bootstraps + 1 else c.bootstraps }
  let result ← pureResult (Wire.serialize evaluation.ciphertext)
  return ⟨result, r.operation, evaluation.ciphertext.noise, evaluation.refreshed⟩

def noiseOf (wire : Value) : Except Failure Noise.Report := do
  Noise.report (← Wire.deserialize wire) .standard

/-- What tells circuits apart: the owner, the name and the time in nanoseconds. -/
def circuitSeed (identity name : Text) (unixTime : Int) : Text :=
  Text.join "-" [identity, name, Text.ofInt unixTime]

/-- The identifier of a circuit is a digest of its seed. -/
def circuitId (identity name : Text) (unixTime : Int) : Except Failure Text :=
  match (circuitSeed identity name unixTime).utf8? with
  | some bs => .ok ("0x" ++ Sha256.hex bs)
  | none => .error .unencodable

/-- Stores a circuit, if it compiles, and answers with its identifier. -/
def createCircuit (user : Text) (request : Value) : ServiceM Text := do
  let c ← accept Circuit.check request
  let identity ← identityOf user
  let s ← get
  let plan ← pureResult (c.compile s.settings.maxCircuitDepth .standard)
  let id ← pureResult (circuitId identity c.name s.unixTime)
  set { s with circuits := Entries.put id ⟨identity, c, plan⟩ s.circuits }
  count fun c => { c with circuitsCreated := c.circuitsCreated + 1 }
  return id

def circuitOf (identity id : Text) : ServiceM Circuit := do
  match (Entries.get? (← get).circuits id).filter (·.owner = identity) with
  | some stored => return stored.circuit
  | none => throw (.field (.circuitNotFound id))

def executeCircuit (user id : Text) (inputs : Entries) (scheme : Option Value) :
    ServiceM (List (Text × Text)) := do
  let scheme ← match scheme with
    | some tag => pureResult (Scheme.parse tag)
    | none => schemeOf none
  start
  let identity ← identityOf user
  let c ← circuitOf identity id
  let bound ← pureResult (inputs.mapM fun (name, wire) => do return (name, ← Wire.deserialize wire))
  let keys ← keysFor .create ⟨identity, scheme⟩
  let key ← bootstrappingKeyFor keys scheme
  let s ← get
  let p ← pureResult (s.engine scheme)
  let outputs ← runPooled (c.execute p.engine s.settings.maxCircuitDepth bound (some key))
  count fun c => { c with circuitsExecuted := c.circuitsExecuted + 1 }
  pureResult (outputs.mapM fun (name, c) => do return (name, ← Wire.serialize c))

end SealedFields.Service
