import SealedFields.Proofs.Circuit.Progress
import SealedFields.Proofs.Engine.Products

/-!
# The account along a run

Whatever a run binds is within the noise budget, within the depth limit and small enough to be multiplied.
Every operation keeps it so, and no product of two anywhere in the run takes a large factor.
-/

namespace SealedFields.Circuit

open Engine (Small SmallFactors)

variable {c : Circuit} {e : Engine Float} {limit : Int} {key : Option BootstrappingKey} {bound wires : Wires}
  {plan : Plan} {op : PlannedOperation} {P : Ciphertext Float → Prop}

/-! ## 1. What holds on all wires -/

/-- Every wire that is bound carries such a ciphertext. -/
def Holds (P : Ciphertext Float → Prop) (wires : Wires) : Prop := ∀ w ct, Entries.get? wires w = some ct → P ct

theorem Holds.read (holds : Holds P wires) {inputs : List (Ciphertext Float)}
    (hread : op.inputs.mapM (Entries.get? wires) = some inputs) : ∀ ct ∈ inputs, P ct := by
  intro ct member
  obtain ⟨w, -, found⟩ := Outcome.exists_of_mem_right (Outcome.mapM_eq_some_iff.1 hread) member
  exact holds w ct found

theorem Holds.put (holds : Holds P wires) {w : Text} {ct : Ciphertext Float} (new : P ct) :
    Holds P (Entries.put w ct wires) := by
  intro v ct' found
  rw [Entries.get?_put] at found
  split at found
  case isTrue =>
    obtain rfl := Option.some.inj found
    exact new
  case isFalse => exact holds v ct' found

/-- What the engine preserves, a run does. -/
theorem Reaches.holds (reaches : c.Reaches e limit key bound plan op wires) (preserves : e.Preserves P)
    (start : Holds P bound) : Holds P wires := by
  refine reaches.invariant start fun op wires wires' _ holds here => ?_
  obtain ⟨inputs, ev, hread, hev, -, rfl⟩ := step_eq_ok_iff.1 here
  exact holds.put (preserves.evaluate (holds.read hread) hev)

/-! ## 2. Exhausted results -/

theorem baseNoise_within_limit :
    NoiseArithmetic.less (NoiseArithmetic.limit : Float) NoiseArithmetic.base = false := by
  decide +kernel

/-- An operation whose exhausted result is not to be refreshed stops the run, with a report of the noise. -/
theorem step_of_exhausted {inputs : List (Ciphertext Float)} {result : Ciphertext Float}
    (hread : op.inputs.mapM (Entries.get? wires) = some inputs)
    (applied : e.apply op.operation inputs op.rotationAmount key = .ok result)
    (exhausted : result.isExhausted = true) (kept : c.refreshes op = false) :
    c.step e limit key wires op
      = .error (.field (.noiseOverflow result.noise maxNoise (some op.operation.name))) := by
  rw [step_of_read hread, kept, Engine.evaluate_of_exhausted applied exhausted]
  rfl

/-! ## 3. Products of two along a run -/

/-- One operation with its products noted. -/
def stepNoted (c : Circuit) (e : Engine Float) (limit : Int) (key : Option BootstrappingKey) (wires : Wires)
    (op : PlannedOperation) : Noted Failure Float Wires :=
  match op.inputs.mapM (Entries.get? wires) with
  | none => .plain (c.step e limit key wires op)
  | some inputs => do
    let evaluation ← (e.evaluateNoted op.operation inputs op.rotationAmount (c.refreshes op) key).mapError
      EngineFault.failure
    let result := evaluation.ciphertext
    .plain (if limit < result.depth then .error (.field (.circuitTooDeep result.depth limit (some c.name)))
      else .ok (Entries.put op.output result wires))

def runNoted (c : Circuit) (e : Engine Float) (limit : Int) (bound : Wires) (key : Option BootstrappingKey)
    (plan : Plan) : Noted Failure Float Wires :=
  let missing := c.inputs.filter (!Entries.has bound ·)
  let undeclared := (bound.map (·.1)).filter (!c.inputs.contains ·)
  if !missing.isEmpty then .plain (.error (.field (.circuitDependency "circuit input not supplied" missing)))
  else if !undeclared.isEmpty then
    .plain (.error (.field (.circuitDependency "supplied input is not declared by the circuit" undeclared)))
  else do .plain (c.collect (← plan.operations.foldlM (c.stepNoted e limit key) bound))

/-- A run with its products noted. -/
def executeNoted (c : Circuit) (e : Engine Float) (limit : Int) (bound : Wires)
    (key : Option BootstrappingKey) : Noted Failure Float Wires := do
  c.runNoted e limit bound key (← .plain (c.compile limit e.growth))

theorem outcome_stepNoted (c : Circuit) (e : Engine Float) (limit : Int) (key : Option BootstrappingKey)
    (wires : Wires) (op : PlannedOperation) : (c.stepNoted e limit key wires op).outcome = c.step e limit key wires op := by
  unfold stepNoted
  cases hread : op.inputs.mapM (Entries.get? wires) with
  | none => rfl
  | some inputs =>
    dsimp only
    rw [step_of_read hread, Noted.outcome_bind, Noted.outcome_mapError, Engine.outcome_evaluateNoted]
    rfl

theorem outcome_foldlM_stepNoted (operations : List PlannedOperation) (wires : Wires) :
    (operations.foldlM (c.stepNoted e limit key) wires).outcome = operations.foldlM (c.step e limit key) wires := by
  induction operations generalizing wires with
  | nil => rfl
  | cons op operations ih =>
    rw [List.foldlM_cons, List.foldlM_cons, Noted.outcome_bind, outcome_stepNoted]
    simp only [ih]

/-- With the notes left out, a run is what it was. -/
theorem outcome_executeNoted (c : Circuit) (e : Engine Float) (limit : Int) (bound : Wires)
    (key : Option BootstrappingKey) : (c.executeNoted e limit bound key).outcome = c.execute e limit bound key := by
  have ran (plan : Plan) : (c.runNoted e limit bound key plan).outcome = c.run e limit bound key plan := by
    unfold runNoted run
    dsimp only
    split
    case isTrue => rfl
    case isFalse =>
      split
      case isTrue => rfl
      case isFalse =>
        rw [Noted.outcome_bind, outcome_foldlM_stepNoted]
        rfl
  unfold executeNoted execute
  rw [Noted.outcome_bind]
  simp only [ran]
  rfl

/-- From small wires on, an operation multiplies small factors only. -/
theorem small_products_stepNoted (holds : Holds Small wires) :
    ∀ p ∈ (c.stepNoted e limit key wires op).products, SmallFactors p := by
  unfold stepNoted
  cases hread : op.inputs.mapM (Entries.get? wires) with
  | none => exact Noted.forall_products_plain _
  | some inputs =>
    refine Noted.forall_products_bind ?_ fun _ _ => Noted.forall_products_plain _
    exact Engine.small_products_evaluateNoted (holds.read hread)

theorem small_products_foldlM_stepNoted (operations : List PlannedOperation) (holds : Holds Small wires) :
    ∀ p ∈ (operations.foldlM (c.stepNoted e limit key) wires).products, SmallFactors p := by
  -- Induction on the operations; each leaves small wires for the next.
  induction operations generalizing wires with
  | nil => exact Noted.forall_products_plain _
  | cons op operations ih =>
    rw [List.foldlM_cons]
    refine Noted.forall_products_bind (small_products_stepNoted holds) fun wires' here => ?_
    rw [outcome_stepNoted] at here
    obtain ⟨inputs, ev, hread, hev, -, rfl⟩ := step_eq_ok_iff.1 here
    exact ih (holds.put ((Engine.preserves_small e).evaluate (holds.read hread) hev))

/-- Whether or not a run gets to its outputs, it multiplies small factors only. -/
theorem small_products_executeNoted (holds : Holds Small bound) :
    ∀ p ∈ (c.executeNoted e limit bound key).products, SmallFactors p := by
  refine Noted.forall_products_bind (Noted.forall_products_plain _) fun plan _ => ?_
  unfold runNoted
  dsimp only
  split
  case isTrue => exact Noted.forall_products_plain _
  case isFalse =>
    split
    case isTrue => exact Noted.forall_products_plain _
    case isFalse =>
      exact Noted.forall_products_bind (small_products_foldlM_stepNoted plan.operations holds) fun _ _ =>
        Noted.forall_products_plain _

/-! ## 4. The account -/

/-- From small inputs on, every operation of a run binds a ciphertext that is not exhausted, not too deep and
small. The same run with its products noted multiplies small factors only. An exhausted result that is not to be
refreshed ends the run. -/
theorem execution_account (c : Circuit) (e : Engine Float) (limit : Int) (growth : GrowthFactors Float)
    (key : Option BootstrappingKey) (bound : Wires) (plan : Plan) (compiled : c.compile limit growth = .ok plan)
    (small : ∀ w ct, Entries.get? bound w = some ct → ct.size ≤ Ciphertext.maxSize) :
    (∀ op wires wires', c.Reaches e limit key bound plan op wires →
        c.step e limit key wires op = .ok wires' → ∃ ct, Entries.get? wires' op.output = some ct ∧
          ct.isExhausted = false ∧ (ct.depth : Int) ≤ limit ∧ ct.size ≤ Ciphertext.maxSize) ∧
      ((c.executeNoted e limit bound key).outcome = c.execute e limit bound key ∧
        ∀ a b, (a, b) ∈ (c.executeNoted e limit bound key).products →
          a.size ≤ Ciphertext.maxSize ∧ b.size ≤ Ciphertext.maxSize) ∧
      ∀ op wires inputs result, c.Reaches e limit key bound plan op wires →
        op.inputs.mapM (Entries.get? wires) = some inputs →
        e.apply op.operation inputs op.rotationAmount key = .ok result → result.isExhausted = true →
        c.refreshes op = false → c.Supplied bound → c.execute e limit bound key
          = .error (.field (.noiseOverflow result.noise maxNoise (some op.operation.name))) := by
  have start : Holds Small bound := small
  refine ⟨fun op wires wires' reaches here => ?_, ⟨outcome_executeNoted c e limit bound key, fun a b noted => ?_⟩,
    fun op wires inputs result reaches hread applied exhausted kept supplied => ?_⟩
  · have holds := reaches.holds (Engine.preserves_small e) start
    obtain ⟨inputs, ev, hread, hev, shallow, rfl⟩ := step_eq_ok_iff.1 here
    refine ⟨ev.ciphertext, Entries.get?_put_self _ _ _, ?_, shallow, ?_⟩
    · exact Engine.isExhausted_of_evaluate baseNoise_within_limit hev
    · exact (Engine.preserves_small e).evaluate (holds.read hread) hev
  · exact small_products_executeNoted start (a, b) noted
  · rw [execute_eq_run compiled]
    exact reaches.run_eq_error supplied (step_of_exhausted hread applied exhausted kept)

/-- A sum, and a product of the sum and both inputs. -/
def sumProduct : Circuit where
  name := "sum, then product"
  inputs := ["x", "y"]
  outputs := ["p"]
  gates := [⟨"multiply", ["s", "x", "y"], "p", []⟩, ⟨"add", ["x", "y"], "s", []⟩]
  autoBootstrap := false

def freshInput : Ciphertext Float := ⟨[2], 3.2, 0, 2, false, false⟩

/-- As large as a factor may be, and not fresh. -/
def largeInput : Ciphertext Float := ⟨[3], 3.2, 4, 3, false, false⟩

def sumOfInputs : Ciphertext Float := ⟨[5], 7.5, 4, 2, false, false⟩

def sumProductInputs : Wires := [("x", freshInput), ("y", largeInput)]

/-- The wires once the sum is bound. -/
def sumBound : Wires := Entries.put ("s" : Text) sumOfInputs sumProductInputs

def sumOperation : PlannedOperation := ⟨1, .add, ["x", "y"], "s", 0, 1, .null⟩

def productOperation : PlannedOperation := ⟨0, .multiply, ["s", "x", "y"], "p", 1, 1, .null⟩

/-- The sum is bound with an account in order, and taken into a product of three by two of two. The product is
exhausted. -/
theorem execution_account_sumProduct : ∃ plan, sumProduct.compile 20 .standard = .ok plan ∧
    (∃ ct, Entries.get? sumBound "s" = some ct ∧ ct.isExhausted = false ∧ (ct.depth : Int) ≤ 20 ∧
      ct.size ≤ Ciphertext.maxSize) ∧
      (∃ product : Ciphertext Float,
        (sumProduct.executeNoted (Parameters.registered .tfhe).engine 20 sumProductInputs none).products
          = [(sumOfInputs, freshInput), (product, largeInput)] ∧ product.size ≤ Ciphertext.maxSize) ∧
      ∃ noise, sumProduct.execute (Parameters.registered .tfhe).engine 20 sumProductInputs none
        = .error (.field (.noiseOverflow noise maxNoise (some Operation.multiply.name))) := by
  have supplied : sumProduct.Supplied sumProductInputs := by
    unfold Supplied
    decide
  have small : ∀ w ct, Entries.get? sumProductInputs w = some ct → ct.size ≤ Ciphertext.maxSize := by
    have each : ∀ p ∈ sumProductInputs, p.2.size ≤ Ciphertext.maxSize := by decide
    exact fun w ct found => each _ (Entries.mem_of_get? found)
  obtain ⟨plan, compiled, operations⟩ : ∃ plan, sumProduct.compile 20 .standard = .ok plan ∧
      plan.operations = [sumOperation, productOperation] := ⟨_, rfl, rfl⟩
  have here : sumProduct.step (Parameters.registered .tfhe).engine 20 none sumProductInputs sumOperation
      = .ok sumBound := by rfl
  obtain ⟨result, applied, exhausted⟩ : ∃ result, (Parameters.registered .tfhe).engine.apply .multiply
      [sumOfInputs, freshInput, largeInput] 1 none = .ok result ∧ result.isExhausted = true :=
    ⟨_, rfl, by decide +kernel⟩
  obtain ⟨product, products⟩ : ∃ product,
      (sumProduct.executeNoted (Parameters.registered .tfhe).engine 20 sumProductInputs none).products
        = [(sumOfInputs, freshInput), (product, largeInput)] := ⟨_, rfl⟩
  obtain ⟨binds, ⟨-, factors⟩, stops⟩ := execution_account sumProduct (Parameters.registered .tfhe).engine 20 .standard
    none sumProductInputs plan compiled small
  have second := factors product largeInput (by simp [products])
  exact ⟨plan, compiled, binds sumOperation _ _ ⟨[], _, operations, rfl⟩ here, ⟨product, products, second.1⟩, _,
    stops productOperation _ _ result ⟨[sumOperation], [], operations, here⟩ rfl applied exhausted rfl supplied⟩

end SealedFields.Circuit
