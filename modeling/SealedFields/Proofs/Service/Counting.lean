import SealedFields.Proofs.Engine.Account
import SealedFields.Proofs.Service.Circuits
import SealedFields.Proofs.Service.Packed

/-!
# What is counted

A request that is answered is counted once. One that fails leaves the counters as they are, unless its work was
done by then: work is counted before an answer is made of it, and what was decrypted may not be a value of the
type that was asked for, and what was computed may not be fit to be written.
-/

namespace SealedFields

theorem Operation.name_of_ofName? {t : Text} {op : Operation} (h : ofName? t = some op) : op.name = t :=
  of_decide_eq_true (p := op.name = t) (List.find?_some h :)

theorem Operation.name_inj {op op' : Operation} : op.name = op'.name ↔ op = op' := by
  refine ⟨fun same => ?_, congrArg _⟩
  rw [← Option.some_inj, ← ofName?_name, same, ofName?_name]

namespace Service

variable {ω α β : Type} {s s' s₁ : Service} {user : Text} {request : Value}

/-! ## 1. What leaves the counters alone -/

/-- What is done besides counting and storing circuits. -/
structure Uncounted (s s' : Service) : Prop where
  counters_eq : s'.counters = s.counters
  circuits_eq : s'.circuits = s.circuits
  settings_eq : s'.settings = s.settings

instance : Std.Refl Uncounted := ⟨fun _ => ⟨rfl, rfl, rfl⟩⟩

theorem Uncounted.trans (first : Uncounted s s₁) (second : Uncounted s₁ s') : Uncounted s s' :=
  ⟨second.1.trans first.1, second.2.trans first.2, second.3.trans first.3⟩

instance : IsTrans Service Uncounted := ⟨fun _ _ _ => Uncounted.trans⟩

theorem uncounted_start : Keeps Uncounted start :=
  keeps_start_of (fun _ _ _ _ _ _ => ⟨rfl, rfl, rfl⟩) (fun _ _ _ _ => ⟨rfl, rfl, rfl⟩) fun _ _ => ⟨rfl, rfl, rfl⟩

theorem uncounted_withKeys (f : KeySource → Custody → α × Custody) : Keeps Uncounted (withKeys f) :=
  keeps_withKeys_of fun _ _ _ => ⟨rfl, rfl, rfl⟩

theorem uncounted_keysFor (errand : Errand) (o : Owner) : Keeps Uncounted (keysFor errand o) :=
  (uncounted_withKeys _).bind fun keys => .pureResult keys

theorem uncounted_bootstrappingKeyFor (keys : KeyPair) (scheme : Scheme) :
    Keeps Uncounted (bootstrappingKeyFor keys scheme) :=
  (uncounted_withKeys _).bind fun key => .pureResult key

theorem uncounted_anchor (a : Anchor) : Keeps Uncounted (anchor a) := keeps_anchor_of (fun _ _ => ⟨rfl, rfl, rfl⟩) a

/-! ## 2. How a request ends -/

/-- A request fails and is not counted; or its work is done and counted, and the request ends with what comes of
the work. -/
inductive Ends (Done : ω → Prop) (tally : ω → Counters → Counters) (outcome : ω → Except Failure α) (s : Service) :
    Except Failure α × Service → Prop
  | refused {f : Failure} {s' : Service} (same : s'.counters = s.counters) : Ends Done tally outcome s (.error f, s')
  | worked {work : ω} {s' : Service} (done : Done work) (counted : s'.counters = tally work s.counters) :
      Ends Done tally outcome s (outcome work, s')

namespace Ends

variable {Done : ω → Prop} {tally : ω → Counters → Counters} {outcome : ω → Except Failure α}
  {last : Except Failure α × Service}

theorem of_uncounted (same : Uncounted s s₁) (h : Ends Done tally outcome s₁ last) :
    Ends Done tally outcome s last := by
  cases h with
  | refused kept => exact .refused (kept.trans same.counters_eq)
  | worked done counted =>
    rw [same.counters_eq] at counted
    exact .worked done counted

/-- What is not counted may come first, and is all if it fails. -/
theorem bind {m : ServiceM β} {f : β → ServiceM α} (keeps : Keeps Uncounted m)
    (rest : ∀ b s₁, m.run s = (.ok b, s₁) → Uncounted s s₁ → Ends Done tally outcome s₁ ((f b).run s₁)) :
    Ends Done tally outcome s ((m >>= f).run s) := by
  rcases run : m.run s with ⟨x, s₁⟩
  have same : Uncounted s s₁ := keeps.of_run run
  rw [run_bind, run]
  cases x with
  | error f => exact .refused same.counters_eq
  | ok b => exact (rest b s₁ run same).of_uncounted same

theorem bind_pureResult {x : Except Failure β} {f : β → ServiceM α}
    (rest : ∀ b, x = .ok b → Ends Done tally outcome s ((f b).run s)) :
    Ends Done tally outcome s ((pureResult x >>= f).run s) := by
  cases x with
  | error f => exact .refused rfl
  | ok b => exact rest b rfl

theorem bind_accept {check : Check β} {f : β → ServiceM α}
    (rest : ∀ b, check request = .ok b → Ends Done tally outcome s ((f b).run s)) :
    Ends Done tally outcome s ((accept check request >>= f).run s) :=
  bind_pureResult fun b passed => rest b (Checked.toExcept_eq_ok_iff.1 passed)

theorem bind_runPooled {work : Except Failure β} {f : β → ServiceM α}
    (rest : ∀ b, work = .ok b → Ends Done tally outcome s ((f b).run s)) :
    Ends Done tally outcome s ((runPooled work >>= f).run s) := by
  refine bind (keeps_runPooled _) fun b s₁ run _ => ?_
  obtain ⟨done, -, rfl⟩ := runPooled_eq_ok run
  exact rest b done

/-- The work is counted; what follows comes of it. -/
theorem counting {rest : ServiceM α} (work : ω) (done : Done work) (told : ∀ s, rest.run s = (outcome work, s)) :
    Ends Done tally outcome s ((do count (tally work); rest).run s) := by
  rw [run_bind]
  show Ends Done tally outcome s (rest.run { s with counters := tally work s.counters })
  rw [told]
  exact .worked done rfl

theorem cases {x : Except Failure α} (h : Ends Done tally outcome s (x, s')) :
    (∃ f, x = .error f) ∧ s'.counters = s.counters ∨
      ∃ work, Done work ∧ s'.counters = tally work s.counters ∧ x = outcome work := by
  cases h with
  | refused same => exact .inl ⟨⟨_, rfl⟩, same⟩
  | worked done counted => exact .inr ⟨_, done, counted, rfl⟩

/-- If nothing is left to be made of the work, what is counted is what is answered. -/
theorem counters_eq {tally : Counters → Counters} {x : Except Failure α}
    (h : Ends (fun _ => True) (fun _ => tally) .ok s (x, s')) :
    s'.counters = if x.isOk then tally s.counters else s.counters := by
  cases h with
  | refused same => exact same
  | worked _ counted => exact counted

end Ends

/-! ## 3. Fields -/

theorem ends_encryptAs (o : Owner) (keys : KeyPair) (format : Wire.Format) (r : EncryptionRequest)
    (plaintext : Bytes) (s : Service) :
    Ends (fun _ => True) (fun _ c => { c with encryptions := c.encryptions + 1 }) .ok s
      ((encryptAs o keys format r plaintext).run s) := by
  refine .bind .get fun _ s _ _ => .bind_pureResult fun p _ => .bind_runPooled fun c _ => ?_
  refine .bind_pureResult fun wire _ => .bind (keeps_metadataOf _ _ _ _ _) fun metadata s _ _ => ?_
  -- Whether the field is anchored or not, it is counted last.
  dsimp only
  split
  case isTrue =>
    refine .bind_pureResult fun shown _ => .bind (uncounted_anchor _) fun a s _ _ => ?_
    exact .counting _ trivial fun _ => rfl
  case isFalse =>
    exact .counting _ trivial fun _ => rfl

theorem ends_encryptField (user : Text) (request : Value) (s : Service) :
    Ends (fun _ => True) (fun _ c => { c with encryptions := c.encryptions + 1 }) .ok s
      ((encryptField user request).run s) := by
  refine .bind_accept fun r _ => .bind uncounted_start fun _ s _ _ => ?_
  refine .bind (keeps_identityOf _) fun identity s _ _ => .bind (keeps_schemeOf _) fun scheme s _ _ => ?_
  refine .bind (uncounted_keysFor _ _) fun keys s _ _ => .bind_pureResult fun plaintext _ => ?_
  exact ends_encryptAs _ _ _ _ _ _

/-- What the wire of a request decrypts to, under some keys. -/
def Decrypts (request : Value) (work : DecryptionRequest × Bytes) : Prop :=
  DecryptionRequest.check request = .ok work.1 ∧ ∃ c keys,
    Wire.read work.1.metadata.encoding work.1.encryptedValue = .ok c ∧
      Codec.decrypt c keys work.1.verify = .ok work.2

theorem ends_decryptField (user : Text) (request : Value) (s : Service) :
    Ends (Decrypts request) (fun _ c => { c with decryptions := c.decryptions + 1 })
      (fun work => (FieldValue.convert work.2 work.1.dataType).mapError .field) s
      ((decryptField user request).run s) := by
  refine .bind_accept fun r checked => .bind uncounted_start fun _ s _ _ => ?_
  refine .bind (keeps_identityOf _) fun identity s _ _ => .bind (uncounted_keysFor _ _) fun keys s _ _ => ?_
  refine .bind_pureResult fun c read => .bind_runPooled fun plaintext decrypted => ?_
  exact .counting (r, plaintext) ⟨checked, c, keys, read, Outcome.mapError_eq_ok_iff.1 decrypted⟩ fun _ => rfl

/-- The values that the wire of a request decrypts to, under some keys: one for each name. -/
def DecryptsPacked (request : Value) (work : PackedFields × List Bytes) : Prop :=
  PackedFields.check request = .ok work.1 ∧ ∃ c keys plaintext,
    Wire.read work.1.metadata.encoding work.1.encryptedValue = .ok c ∧
      Codec.decrypt c keys false = .ok plaintext ∧ Packing.unpack plaintext = .ok work.2 ∧
        work.2.length = work.1.fieldNames.length

theorem ends_decryptPacked (user : Text) (request : Value) (s : Service) :
    Ends (DecryptsPacked request) (fun _ c => { c with decryptions := c.decryptions + 1 })
      (fun work => ((convertPacked work.1.fieldNames work.1.dataTypes work.2).mapError .field).map Entries.ofWrites) s
      ((decryptPacked user request).run s) := by
  refine .bind_accept fun r checked => .bind uncounted_start fun _ s _ _ => ?_
  refine .bind (keeps_identityOf _) fun identity s _ _ => .bind (uncounted_keysFor _ _) fun keys s _ _ => ?_
  refine .bind_pureResult fun c read => .bind_runPooled fun plaintext decrypted => ?_
  refine .bind_pureResult fun values unpacked => ?_
  dsimp only
  split
  case isTrue => exact .refused rfl
  case isFalse same =>
    have done : DecryptsPacked request (r, values) :=
      ⟨checked, c, keys, plaintext, read, Outcome.mapError_eq_ok_iff.1 decrypted,
        Outcome.mapError_eq_ok_iff.1 unpacked, not_not.1 same⟩
    refine .counting (r, values) done fun s => ?_
    cases convertPacked r.fieldNames r.dataTypes values <;> rfl

/-! ## 4. Computations -/

/-- An operation on ciphertexts, and what it comes to. -/
structure Computation where
  request : OperationRequest
  engine : Engine Float
  inputs : List (Ciphertext Float)
  key : Option BootstrappingKey
  evaluation : Evaluation Float

namespace Computation

/-- Is the result refreshed, because it was exhausted or because that was the operation? -/
def bootstraps (work : Computation) : Bool :=
  work.evaluation.refreshed || work.request.operation = Operation.name .bootstrap

/-- The answer to a request, if the result can be written. -/
def answer (work : Computation) : Except Failure ComputationResult := do
  let wire ← Wire.serialize work.evaluation.ciphertext
  return ⟨wire, work.request.operation, work.evaluation.ciphertext.noise, work.evaluation.refreshed⟩

def tally (work : Computation) (c : Counters) : Counters :=
  { c with
    operations := c.operations + 1
    bootstraps := if work.bootstraps then c.bootstraps + 1 else c.bootstraps }

end Computation

/-- What the operation of a request comes to on its inputs, under one of the schemes. -/
structure Computes (request : Value) (work : Computation) : Prop where
  checked : OperationRequest.check request = .ok work.request
  engine : ∃ scheme, work.engine = (Parameters.registered scheme).engine
  read : work.request.inputs.mapM (fun t => Wire.deserialize (.text t)) = .ok work.inputs
  evaluated : work.engine.evaluateNamed work.request.operation work.inputs work.request.rotationAmount
    work.request.autoBootstrap work.key = .ok work.evaluation

/-- A bootstrap is the last step of a computation that counts as one, and no other computation takes it. -/
theorem Computes.bootstraps {work : Computation} (computes : Computes request work) :
    (work.bootstraps = true → ∃ a, work.engine.bootstrap a work.key = .ok work.evaluation.ciphertext) ∧
      (work.bootstraps = false → ∃ op, op ≠ .bootstrap ∧ work.engine.apply op work.inputs
        work.request.rotationAmount work.key = .ok work.evaluation.ciphertext) := by
  have evaluated := computes.evaluated
  unfold Engine.evaluateNamed at evaluated
  split at evaluated
  case h_2 => cases evaluated
  case h_1 op found =>
    have named : work.request.operation = Operation.name .bootstrap ↔ op = .bootstrap := by
      rw [← Operation.name_of_ofName? found, Operation.name_inj]
    unfold Computation.bootstraps
    simp only [named]
    obtain ⟨result, applied, ⟨-, same⟩ | ⟨-, r, refreshed, same⟩⟩ := Engine.evaluate_eq_ok evaluated
    · rw [same]
      refine ⟨fun yes => ?_, fun no => ⟨op, of_decide_eq_false no, applied⟩⟩
      obtain rfl : op = .bootstrap := of_decide_eq_true yes
      have applies := Engine.applies_of_apply applied
      generalize work.inputs = inputs at applies
      cases applies with
      | bootstrap refreshed => exact ⟨_, refreshed⟩
    · rw [same]
      exact ⟨fun _ => ⟨result, refreshed⟩, fun no => nomatch no⟩

theorem ends_operate (user : Text) (request : Value) (s : Service) :
    Ends (Computes request) Computation.tally Computation.answer s ((operate user request).run s) := by
  refine .bind_accept fun r checked => .bind uncounted_start fun _ s _ _ => ?_
  refine .bind (keeps_identityOf _) fun identity s _ _ => .bind (keeps_schemeOf _) fun scheme s _ _ => ?_
  refine .bind .get fun _ s _ _ => .bind_pureResult fun p found => .bind_pureResult fun inputs read => ?_
  obtain rfl := engine_eq_ok found
  refine .bind (uncounted_keysFor _ _) fun keys s _ _ => ?_
  -- With a bootstrapping key or without one, the evaluation is counted before its result is written.
  have ending : ∀ key s, Ends (Computes request) Computation.tally Computation.answer s ((do
      let evaluation ← runPooled (((Parameters.registered scheme).engine.evaluateNamed r.operation inputs
        r.rotationAmount r.autoBootstrap key).mapError EngineFault.failure)
      count (Computation.tally ⟨r, (Parameters.registered scheme).engine, inputs, key, evaluation⟩)
      let result ← pureResult (Wire.serialize evaluation.ciphertext)
      return (⟨result, r.operation, evaluation.ciphertext.noise, evaluation.refreshed⟩ : ComputationResult) :
        ServiceM ComputationResult).run s) := by
    intro key s
    refine .bind_runPooled fun evaluation evaluated => ?_
    refine .counting _ ⟨checked, ⟨scheme, rfl⟩, read, Outcome.mapError_eq_ok_iff.1 evaluated⟩ fun s => ?_
    unfold Computation.answer
    cases Wire.serialize evaluation.ciphertext <;> rfl
  dsimp only
  split
  case isTrue => exact .bind ((uncounted_bootstrappingKeyFor _ _).map some) fun key s _ _ => ending key s
  case isFalse => exact ending none s

theorem ends_createCircuit (user : Text) (request : Value) (s : Service) :
    Ends (fun _ => True) (fun _ c => { c with circuitsCreated := c.circuitsCreated + 1 }) .ok s
      ((createCircuit user request).run s) := by
  refine .bind_accept fun c _ => .bind (keeps_identityOf _) fun identity s _ _ => ?_
  rw [run_bind_of_ok (run_get s)]
  refine .bind_pureResult fun plan _ => .bind_pureResult fun id _ => ?_
  have made : (fun _ : Text => True) id := trivial
  exact .worked made rfl

/-- What a stored circuit comes to on the inputs that are bound. -/
def Executes (s : Service) (id : Text) (inputs : Entries) (outputs : Wires) : Prop :=
  ∃ identity circuit scheme bound key, s.holding id = some (identity, circuit) ∧
    (inputs.mapM fun (name, wire) => do return (name, ← Wire.deserialize wire)) = .ok bound ∧
      circuit.execute (Parameters.registered scheme).engine s.settings.maxCircuitDepth bound (some key) = .ok outputs

/-- The outputs of a circuit, if all of them can be written. -/
def executed (outputs : Wires) : Except Failure (List (Text × Text)) :=
  outputs.mapM fun (name, c) => do return (name, ← Wire.serialize c)

theorem circuitOf_eq_ok {identity id : Text} {circuit : Circuit}
    (h : (circuitOf identity id).run s = (.ok circuit, s')) : s.holding id = some (identity, circuit) := by
  have told := run_circuitOf s identity id
  rw [h] at told
  split at told
  case h_1 owner stored found =>
    obtain rfl := Except.ok.inj told
    obtain ⟨held, own⟩ := Option.filter_eq_some_iff.1 found
    obtain rfl : owner = identity := of_decide_eq_true own
    exact held
  case h_2 => cases told

theorem ends_executeCircuit (user id : Text) (inputs : Entries) (scheme : Option Value) (s : Service) :
    Ends (Executes s id inputs) (fun _ c => { c with circuitsExecuted := c.circuitsExecuted + 1 }) executed s
      ((executeCircuit user id inputs scheme).run s) := by
  -- What is done before the circuit is executed leaves it and its limit as they were.
  have ending : ∀ scheme s₁, Uncounted s s₁ → Ends (Executes s id inputs)
      (fun _ c => { c with circuitsExecuted := c.circuitsExecuted + 1 }) executed s₁ ((do
        start
        let identity ← identityOf user
        let c ← circuitOf identity id
        let bound ← pureResult (inputs.mapM fun input => do return (input.1, ← Wire.deserialize input.2))
        let keys ← keysFor .create ⟨identity, scheme⟩
        let key ← bootstrappingKeyFor keys scheme
        let s ← get
        let p ← pureResult (s.engine scheme)
        let outputs ← runPooled (c.execute p.engine s.settings.maxCircuitDepth bound (some key))
        count fun c => { c with circuitsExecuted := c.circuitsExecuted + 1 }
        pureResult (executed outputs) : ServiceM (List (Text × Text))).run s₁) := by
    intro scheme s₁ before
    refine .bind uncounted_start fun _ s₂ _ started => .bind (keeps_identityOf _) fun identity s₃ _ known => ?_
    refine .bind (keeps_circuitOf _ _) fun c s₄ found loaded => .bind_pureResult fun bound read => ?_
    refine .bind (uncounted_keysFor _ _) fun keys s₅ _ asked => ?_
    refine .bind (uncounted_bootstrappingKeyFor _ _) fun key s₆ _ made => ?_
    have loading : Uncounted s s₃ := (before.trans started).trans known
    have running : Uncounted s s₆ := ((loading.trans loaded).trans asked).trans made
    rw [run_bind_of_ok (run_get s₆), running.settings_eq]
    refine .bind_pureResult fun p up => .bind_runPooled fun outputs done => ?_
    obtain rfl := engine_eq_ok up
    have held : s.holding id = some (identity, c) := by
      have held := circuitOf_eq_ok found
      rw [holding, loading.circuits_eq] at held
      exact held
    exact .counting outputs ⟨identity, c, scheme, bound, key, held, read, done⟩ fun _ => rfl
  cases scheme with
  | some tag => exact .bind (.pureResult _) fun scheme s₁ _ same => ending scheme s₁ same
  | none => exact .bind (keeps_schemeOf none) fun scheme s₁ _ same => ending scheme s₁ same

/-! ## 5. What is counted -/

/-- Encryptions and circuits are counted if and only if they are answered. Every other call that is answered is
counted once, and one that fails is not, unless all that failed was to make an answer of its work: to convert what
was decrypted, or to write what was computed. A bootstrap is counted if and only if the result was refreshed. -/
theorem work_counted_once (s : Service) (user id : Text) (request : Value) (inputs : Entries)
    (scheme : Option Value) :
    (∀ x s', (encryptField user request).run s = (x, s') → s'.counters =
      if x.isOk then { s.counters with encryptions := s.counters.encryptions + 1 } else s.counters) ∧
    (∀ x s', (createCircuit user request).run s = (x, s') → s'.counters =
      if x.isOk then { s.counters with circuitsCreated := s.counters.circuitsCreated + 1 } else s.counters) ∧
    (∀ x s', (decryptField user request).run s = (x, s') →
      (∃ f, x = .error f) ∧ s'.counters = s.counters ∨ ∃ work, Decrypts request work ∧
        s'.counters = { s.counters with decryptions := s.counters.decryptions + 1 } ∧
          x = (FieldValue.convert work.2 work.1.dataType).mapError .field) ∧
    (∀ x s', (decryptPacked user request).run s = (x, s') →
      (∃ f, x = .error f) ∧ s'.counters = s.counters ∨ ∃ work, DecryptsPacked request work ∧
        s'.counters = { s.counters with decryptions := s.counters.decryptions + 1 } ∧
          x = ((convertPacked work.1.fieldNames work.1.dataTypes work.2).mapError .field).map Entries.ofWrites) ∧
    (∀ x s', (operate user request).run s = (x, s') →
      (∃ f, x = .error f) ∧ s'.counters = s.counters ∨ ∃ work, Computes request work ∧
        s'.counters = { s.counters with
          operations := s.counters.operations + 1
          bootstraps := if work.bootstraps then s.counters.bootstraps + 1 else s.counters.bootstraps } ∧
        (work.bootstraps = true → ∃ a, work.engine.bootstrap a work.key = .ok work.evaluation.ciphertext) ∧
        (work.bootstraps = false → ∃ op, op ≠ .bootstrap ∧ work.engine.apply op work.inputs
          work.request.rotationAmount work.key = .ok work.evaluation.ciphertext) ∧
        x = work.answer) ∧
    (∀ x s', (executeCircuit user id inputs scheme).run s = (x, s') →
      (∃ f, x = .error f) ∧ s'.counters = s.counters ∨ ∃ outputs, Executes s id inputs outputs ∧
        s'.counters = { s.counters with circuitsExecuted := s.counters.circuitsExecuted + 1 } ∧
          x = executed outputs) := by
  refine ⟨fun x s' h => ?_, fun x s' h => ?_, fun x s' h => ?_, fun x s' h => ?_, fun x s' h => ?_, fun x s' h => ?_⟩
  · have ends := ends_encryptField user request s
    rw [h] at ends
    exact ends.counters_eq
  · have ends := ends_createCircuit user request s
    rw [h] at ends
    exact ends.counters_eq
  · have ends := ends_decryptField user request s
    rw [h] at ends
    exact ends.cases
  · have ends := ends_decryptPacked user request s
    rw [h] at ends
    exact ends.cases
  · have ends := ends_operate user request s
    rw [h] at ends
    obtain refused | ⟨work, computes, counted, rfl⟩ := ends.cases
    · exact .inl refused
    · exact .inr ⟨work, computes, counted, computes.bootstraps.1, computes.bootstraps.2, rfl⟩
  · have ends := ends_executeCircuit user id inputs scheme s
    rw [h] at ends
    exact ends.cases

theorem work_counted_once_greeting : ∃ field s',
    (encryptField "alice" (.dict greeting.toEntries)).run (ofAlice.after [.start]) = (.ok field, s') ∧
      s'.counters = ⟨1, 0, 0, 0, 0, 0⟩ := by
  have answered : ((encryptField "alice" (.dict greeting.toEntries)).run (ofAlice.after [.start])).1.isOk = true := by
    decide +kernel
  have nothing : (ofAlice.after [.start]).counters = ⟨0, 0, 0, 0, 0, 0⟩ := by decide +kernel
  rcases done : (encryptField "alice" (.dict greeting.toEntries)).run (ofAlice.after [.start]) with ⟨field | field, s'⟩
  · rw [done] at answered
    cases answered
  · have counted := (work_counted_once _ "alice" [] (.dict greeting.toEntries) [] none).1 _ s' done
    rw [nothing] at counted
    exact ⟨field, s', rfl, counted⟩

/-- What can be decrypted is counted, whatever it is decrypted as. -/
theorem counters_decryptField_of_decryptable {w : KeyWrapper} {plaintext : Bytes} {wire : Text} {metadata : Metadata}
    (sound : s.Sound w) (decryptable : s.Decryptable w user plaintext wire metadata) (name dataType : Text)
    (verify : Bool) :
    ((decryptField user (.dict (DecryptionRequest.toEntries ⟨name, wire, metadata, dataType, verify⟩))).run s).2.counters
      = { s.counters with decryptions := s.counters.decryptions + 1 } := by
  obtain ⟨s₁, identity, keys, s₂, started, told, looked, opens⟩ := exists_opens_of_decryptable sound decryptable
  obtain ⟨c, read, decrypted⟩ := opens.exists_run verify
  have same : Uncounted s s₂ := (uncounted_start.of_run started).trans ((uncounted_keysFor _ _).of_run looked)
  have accepted := run_accept (DecryptionRequest.check_toEntries (r := ⟨name, wire, metadata, dataType, verify⟩)
    opens.seals.listed) s
  unfold decryptField
  rw [run_bind_of_ok accepted, run_bind_of_ok started, run_bind_of_ok told]
  unfold openOwned ownerOf
  rw [run_bind_of_ok looked]
  unfold openField
  rw [run_bind_of_ok read, run_bind_of_ok decrypted, ← same.counters_eq]
  rfl

/-- A greeting is no number, and its decryption as one fails; but it is counted. -/
theorem misread_decryption_counted : ∃ s s' request f,
    (decryptField "alice" request).run s = (.error f, s') ∧
      s'.counters = { s.counters with decryptions := s.counters.decryptions + 1 } := by
  have checked : EncryptionRequest.check (.dict greeting.toEntries) = .ok greeting := rfl
  have answered : ((encryptField "alice" (.dict greeting.toEntries)).run (ofAlice.after [.start])).1.isOk = true := by
    decide +kernel
  rcases done : (encryptField "alice" (.dict greeting.toEntries)).run (ofAlice.after [.start]) with ⟨field | field, s⟩
  · rw [done] at answered
    cases answered
  · obtain ⟨sound', -⟩ : s.Sound (.ephemeral 0) ∧ Grows "alice" _ s := (keeps_encryptField _ _).advances done sound_ofAlice
    obtain ⟨plaintext, prepared, decryptable⟩ := decryptable_encryptField sound_ofAlice checked done
    obtain rfl : _ = plaintext := Except.ok.inj prepared
    have failed := decryptField_of_decryptable sound' decryptable "greeting" "number" false
    have counted := counters_decryptField_of_decryptable sound' decryptable "greeting" "number" false
    exact ⟨s, _, _, _, Prod.ext failed rfl, counted⟩

end Service

end SealedFields
