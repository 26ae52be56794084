import SealedFields.Key.Store

/-!
Loads of the key store, step by step. Each step makes at most one call to the custodian; between two steps,
and between the custodian's work and its answer's arrival, anything else may happen: other requests, other
loads, callers that give up, time that passes.
-/

namespace SealedFields

/-- A key store and what it works with: the custodian, a source of randomness, the time, and the waits
there have been. -/
structure Custody where
  store : KeyStore
  custodian : Custodian
  entropy : Entropy
  now : Float
  waits : List Float

namespace Custody

inductive Next where
  | go (phase : Phase)
  | wait (delay : Float) (phase : Phase)
  | finish (result : Except Failure KeyPair)

def afterFailure (s : KeyStore) (scheme : Scheme) (phase : Phase) (f : Failure) : Next :=
  match s.policy.verdict s.label phase.attempt f with
  | .giveUp f => .finish (.error (phase.lastFailure scheme f))
  | .wait delay => .wait delay phase.again

/-- The keys in a record, unless it was tampered with or belongs to somebody else. -/
def openRecord (w : KeyWrapper) (o : Owner) (r : KeyRecord) : Except Failure KeyPair := do
  let privateKey ← unwrap r.wrappedPrivateKey (← o.associatedData .decryption)
  let evaluationKey ← unwrap r.wrappedEvaluationKey (← o.associatedData .evaluation)
  return { publicKey := r.publicKey, privateKey, evaluationKey, scheme := o.scheme }
where
  unwrap (wrapped associated : Bytes) : Except Failure Bytes :=
    match w.unwrap wrapped (some associated) with
    | .error (.raised .inauthentic _) =>
      .error (.field (.custodianFailed "stored key material failed authentication" "retrieve"))
    | r => r

def closeRecord (w : KeyWrapper) (o : Owner) (keys : KeyPair) (entropy : Entropy) :
    Except Failure KeyRecord × Entropy :=
  match o.associatedData .decryption, o.associatedData .evaluation with
  | .ok forDecryption, .ok forEvaluation =>
    let (wrappedPrivateKey, entropy) := w.wrap keys.privateKey (some forDecryption) entropy
    let (wrappedEvaluationKey, entropy) := w.wrap keys.evaluationKey (some forEvaluation) entropy
    (.ok ⟨o, keys.publicKey, wrappedPrivateKey, wrappedEvaluationKey⟩, entropy)
  | .error f, _ | _, .error f => (.error f, entropy)

/-- Makes keys for an owner who has none; they are stored next. -/
def makeKeys (source : KeySource) (o : Owner) (c : Custody) : Next × Custody :=
  match source.generate o.scheme c.entropy with
  | (.error f, entropy) => (.finish (.error f), { c with entropy })
  | (.ok keys, entropy) =>
    match closeRecord c.store.wrapper o keys entropy with
    | (.error f, entropy) => (.finish (.error f), { c with entropy })
    | (.ok record, entropy) => (.go (.storing 0 keys record), { c with entropy })

/-- What the custodian answers to a load: a record if it has one, or whether it stored one. -/
inductive CustodianAnswer where
  | found (r : Except Failure (Option KeyRecord))
  | stored (r : Except Failure Unit)

/-- The first attempt of a phase puts its label on the policy. -/
def withLabel (phase : Phase) (c : Custody) : Custody :=
  if phase.attempt = 0 then { c with store := { c.store with label := phase.label } } else c

def consult (o : Owner) (phase : Phase) (c : Custody) : CustodianAnswer × Custody :=
  let c := c.withLabel phase
  match phase with
  | .lookingUp _ =>
    let (answer, custodian) := c.custodian.retrieve o
    (.found answer, { c with custodian })
  | .storing _ _ record =>
    let (answer, custodian) := c.custodian.store record
    (.stored answer, { c with custodian })

def resume (source : KeySource) (o : Owner) (errand : Errand) (phase : Phase) (answer : CustodianAnswer)
    (c : Custody) : Next × Custody :=
  match phase, answer with
  | .lookingUp _, .found (.ok (some record)) => (.finish (openRecord c.store.wrapper o record), c)
  | .lookingUp _, .found (.ok none) =>
    match errand with
    | .lookup => (.finish (.error (.field (.keyNotFound o.identity (some o.scheme.tag) "key_pair"))), c)
    | .create => makeKeys source o c
  | .storing _ keys _, .stored (.ok _) => (.finish (.ok keys), c)
  | phase, .found (.error f) | phase, .stored (.error f) => (afterFailure c.store o.scheme phase f, c)
  -- The custodian answers the call that was made.
  | phase, _ => (.go phase, c)

def mayTry (phase : Phase) (c : Custody) : Bool := (phase.attempt : Int) ≤ c.store.policy.maxRetries

/-- One step of a load: the custodian is called, and the load goes on with the answer. -/
def step (source : KeySource) (o : Owner) (errand : Errand) (phase : Phase) (c : Custody) : Next × Custody :=
  if c.mayTry phase then
    let (answer, c) := consult o phase c
    resume source o errand phase answer c
  else (.finish (.error .noAttempt), c.withLabel phase)

abbrev Told := List (Nat × Cache.Outcome KeyPair)

/-- A caller asks for an owner's keys; a load that this starts is taken up. -/
def request (errand : Errand) (o : Owner) (caller : Nat) (c : Custody) : Cache.Reply KeyPair × Custody :=
  let (reply, keyCache) := c.store.keyCache.request c.now o errand caller
  let loads := match reply with
    | .waits id true => c.store.loads ++ [⟨id, o, errand, .lookingUp 0⟩]
    | _ => c.store.loads
  (reply, { c with store := { c.store with keyCache, loads } })

/-- The loads under way, with one of them in another phase. -/
def inPhase (c : Custody) (l : KeyLoad) (phase : Phase) : List KeyLoad :=
  c.store.loads.map fun m => if m.id = l.id then { m with phase } else m

/-- What a step of a load leaves behind, with what callers are told if it was the last. -/
def settle (l : KeyLoad) (next : Next) (c : Custody) : Told × Custody :=
  match next with
  | .go phase => ([], { c with store := { c.store with loads := c.inPhase l phase } })
  | .wait delay phase =>
    ([], { c with store := { c.store with loads := c.inPhase l phase }, waits := c.waits ++ [delay] })
  | .finish result =>
    let (told, keyCache) := c.store.keyCache.complete c.now l.id (result.map some)
    (told, { c with store := { c.store with keyCache, loads := c.store.loads.filter (·.id ≠ l.id) } })

def advance (source : KeySource) (l : KeyLoad) (c : Custody) : Told × Custody :=
  let (next, c) := step source l.owner l.errand l.phase c
  settle l next c

/-- Runs one load to its end, in at most `steps` steps. -/
def finish (source : KeySource) (id : Nat) : (steps : Nat) → Custody → Told × Custody
  | 0, c => ([], c)
  | steps + 1, c =>
    match c.store.loads.find? (·.id = id) with
    | none => ([], c)
    | some l =>
      let (told, c) := advance source l c
      let (rest, c) := finish source id steps c
      (told ++ rest, c)

/-- A load takes no more steps than this. -/
def maxSteps (c : Custody) : Nat := 2 * (c.store.policy.maxRetries + 1).toNat + 2

def finishAll (source : KeySource) : List Nat → Custody → Told × Custody
  | [], c => ([], c)
  | id :: ids, c =>
    let (told, c) := finish source id c.maxSteps c
    let (rest, c) := finishAll source ids c
    (told ++ rest, c)

/-- Requests made one after the other, before any load gets further. -/
def requestAll :
    (firstCaller : Nat) → List (Errand × Owner) → Custody → List (Cache.Reply KeyPair) × Custody
  | _, [], c => ([], c)
  | caller, (errand, o) :: rest, c =>
    let (reply, c) := request errand o caller c
    let (replies, c) := requestAll (caller + 1) rest c
    (reply :: replies, c)

def askAll (source : KeySource) (requests : List (Errand × Owner)) (c : Custody) :
    List (Except Failure KeyPair) × Custody :=
  let (replies, c) := requestAll 0 requests c
  let (told, c) := finishAll source (replies.filterMap (·.started?)) c
  (replies.zipIdx.map fun (reply, caller) => reply.settled told caller, c)

def ask (source : KeySource) (errand : Errand) (o : Owner) (c : Custody) :
    Except Failure KeyPair × Custody :=
  let (reply, c) := request errand o 0 c
  let (told, c) := finishAll source reply.started?.toList c
  (reply.settled told 0, c)

def bootstrappingKey (source : KeySource) (evaluationKey : Bytes) (scheme : Scheme) (c : Custody) :
    Except Failure BootstrappingKey × Custody :=
  match source.engine scheme with
  | .error f => (.error f, c)
  | .ok p =>
    let (reply, cache) := c.store.bootstrapCache.request c.now (Sha256.hex evaluationKey, scheme) () 0
    let (told, cache) := match reply with
      | .waits id true => cache.complete c.now id ((p.bootstrappingKey evaluationKey).map some)
      | _ => ([], cache)
    (reply.settled told 0, { c with store := { c.store with bootstrapCache := cache } })

def close (c : Custody) : Custody := { c with store := c.store.close }

end Custody

end SealedFields
