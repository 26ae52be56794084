import SealedFields.Proofs.Circuit.Account
import SealedFields.Proofs.Engine.Budget

/-!
# Planned and realized depth

The plan counts every product as one, however many factors it has. The engine takes a product of n factors
in n - 1 steps, each of which takes the depth up by one, so that a realized depth may exceed the planned one.
It stays within the plan where every product of three or more is refreshed, and so it is under the registered
parameters, whose noise growth lets no such product stay within the budget.
-/

namespace SealedFields.Circuit

variable {c : Circuit} {e : Engine Float} {limit : Int} {growth : GrowthFactors Float}
  {key : Option BootstrappingKey} {bound wires : Wires} {plan : Plan} {op : PlannedOperation}
  {ev : Evaluation Float} {cost : Operation → Nat → Nat}

/-! ## 1. Depth by cost -/

/-- The depth of a gate's result from those of its inputs, if an operation on so many inputs costs so much. -/
def GateCost (cost : Operation → Nat → Nat) (g : Gate) (ds : List Nat) (d : Nat) : Prop :=
  ∃ op, g.operation? = some op ∧ d = ds.foldl max 0 + cost op g.inputs.length

/-- The depth of a wire by what operations cost; inputs have none. -/
def HasCost (c : Circuit) (cost : Operation → Nat → Nat) : Text → Nat → Prop :=
  c.Denotes (fun _ d => d = 0) (GateCost cost)

/-- In a plan every product costs one. -/
def plannedCost (op : Operation) (_ : Nat) : Nat := if op = .multiply then 1 else 0

theorem hasCost_plannedCost : c.HasCost plannedCost = c.HasDepth := rfl

/-- The operation is evaluated in the run, on such inputs and with such a result. -/
structure Evaluated (c : Circuit) (e : Engine Float) (limit : Int) (key : Option BootstrappingKey)
    (bound : Wires) (plan : Plan) (op : PlannedOperation) (inputs : List (Ciphertext Float))
    (ev : Evaluation Float) : Prop where
  supplied : c.Supplied bound
  reached : ∃ wires, c.Reaches e limit key bound plan op wires ∧
    op.inputs.mapM (Entries.get? wires) = some inputs
  result : e.evaluate op.operation inputs op.rotationAmount (c.refreshes op) key = .ok ev

/-- No operation in the run takes the depth of its inputs up by more than it costs. -/
def WithinCost (c : Circuit) (e : Engine Float) (limit : Int) (key : Option BootstrappingKey) (bound : Wires)
    (plan : Plan) (cost : Operation → Nat → Nat) : Prop :=
  ∀ op inputs ev, c.Evaluated e limit key bound plan op inputs ev → ∀ d, (∀ a ∈ inputs, a.depth ≤ d) →
    ev.ciphertext.depth ≤ d + cost op.operation inputs.length

/-- No wire that is bound is deeper than what it costs. -/
def Covered (c : Circuit) (cost : Operation → Nat → Nat) (wires : Wires) : Prop :=
  ∀ w ct, Entries.get? wires w = some ct → ∃ d, c.HasCost cost w d ∧ ct.depth ≤ d

theorem covered_of_fresh (supplied : c.Supplied bound) (fresh : Holds (·.depth = 0) bound) :
    c.Covered cost bound := by
  intro w ct found
  have declared := supplied.mem_keys_iff.1 (Entries.mem_keys_iff.2 ⟨ct, found⟩)
  exact ⟨0, .input declared rfl, (fresh w ct found).le⟩

/-- What a gate makes of covered wires is covered. -/
theorem Covered.output (covered : c.Covered cost wires) {i : Nat} {g : Gate} (hg : g ∈ c.gates)
    (plans : op.Plans i g) {inputs : List (Ciphertext Float)}
    (hread : op.inputs.mapM (Entries.get? wires) = some inputs) {ct : Ciphertext Float}
    (deep : ∀ d, (∀ a ∈ inputs, a.depth ≤ d) → ct.depth ≤ d + cost op.operation inputs.length) :
    ∃ d, c.HasCost cost op.output d ∧ ct.depth ≤ d := by
  have read := Outcome.mapM_eq_some_iff.1 hread
  obtain ⟨ds, costs, depths⟩ := Outcome.exists_forall₂_between (read.imp covered)
  have bounded : ∀ a ∈ inputs, a.depth ≤ ds.foldl max 0 := by
    intro a ha
    obtain ⟨d, hd, le⟩ := Outcome.exists_of_mem_left depths ha
    exact le.trans ((isGreatest_foldl_max 0 ds).2 (List.mem_cons_of_mem _ hd))
  refine ⟨_, ?_, deep _ bounded⟩
  rw [plans.inputs] at costs read
  obtain ⟨length, costs⟩ := List.forall₂_iff_zip.1 costs
  rw [plans.output]
  exact .gate hg length (fun v b => costs) ⟨op.operation, plans.operation, by rw [read.length_eq]⟩

/-- If operations take the depth up by their cost at most, no result is deeper than its wire costs. -/
theorem Evaluated.le_cost {inputs : List (Ciphertext Float)}
    (evaluated : c.Evaluated e limit key bound plan op inputs ev)
    (compiled : c.compile limit growth = .ok plan) (fresh : Holds (·.depth = 0) bound)
    (within : c.WithinCost e limit key bound plan cost) :
    ∃ d, c.HasCost cost op.output d ∧ ev.ciphertext.depth ≤ d := by
  have output {op wires inputs ev} (covered : c.Covered cost wires)
      (reaches : c.Reaches e limit key bound plan op wires)
      (hread : op.inputs.mapM (Entries.get? wires) = some inputs)
      (evaluated : c.Evaluated e limit key bound plan op inputs ev) :
      ∃ d, c.HasCost cost op.output d ∧ ev.ciphertext.depth ≤ d := by
    obtain ⟨-, -, i, g, hg, plans⟩ := planned_spec compiled op reaches.mem
    exact covered.output hg plans hread (within op inputs ev evaluated)
  obtain ⟨wires, reaches, hread⟩ := evaluated.reached
  -- The wires are covered wherever the run gets, and with them what is made of them.
  have covered : c.Covered cost wires := by
    refine reaches.invariant (covered_of_fresh evaluated.supplied fresh) ?_
    intro op wires wires' reaches covered here w ct found
    obtain ⟨inputs, ev, hread, hev, -, rfl⟩ := step_eq_ok_iff.1 here
    rw [Entries.get?_put] at found
    split at found
    case isTrue same =>
      obtain rfl := Option.some.inj found
      rw [same]
      exact output covered reaches hread ⟨evaluated.supplied, ⟨wires, reaches, hread⟩, hev⟩
    case isFalse => exact covered w ct found
  exact output covered reaches hread evaluated

/-! ## 2. Products of three and more -/

/-- Every product of three or more in the run is refreshed. -/
def RefreshesWide (c : Circuit) (e : Engine Float) (limit : Int) (key : Option BootstrappingKey) (bound : Wires)
    (plan : Plan) : Prop :=
  ∀ op inputs ev, c.Evaluated e limit key bound plan op inputs ev → op.operation = .multiply →
    2 < inputs.length → ev.refreshed = true

theorem withinCost_products : c.WithinCost e limit key bound plan Operation.products :=
  fun _ _ _ evaluated _ all => (Engine.depth_of_evaluate all evaluated.result).1

/-- The plan counts enough where a product has two factors, and where it is refreshed. -/
theorem withinCost_planned (refreshes : c.RefreshesWide e limit key bound plan) :
    c.WithinCost e limit key bound plan plannedCost := by
  intro op inputs ev evaluated d all
  obtain ⟨deep, zero⟩ := Engine.depth_of_evaluate all evaluated.result
  by_cases wide : op.operation = .multiply ∧ 2 < inputs.length
  · rw [zero (refreshes op inputs ev evaluated wide.1 wide.2)]
    exact Nat.zero_le _
  · refine deep.trans (Nat.add_le_add_left ?_ d)
    unfold Operation.products plannedCost
    split
    case isTrue multiplies =>
      have two : ¬ 2 < inputs.length := fun three => wide ⟨multiplies, three⟩
      omega
    case isFalse => exact le_rfl

/-- There is no product of three or more where the circuit's own gates multiply two. -/
theorem refreshesWide_of_pairs (compiled : c.compile limit growth = .ok plan)
    (pairs : ∀ g ∈ c.gates, g.operation? = some .multiply → g.inputs.length ≤ 2) :
    c.RefreshesWide e limit key bound plan := by
  intro op inputs ev evaluated multiplies three
  obtain ⟨wires, reaches, hread⟩ := evaluated.reached
  obtain ⟨-, -, i, g, hg, plans⟩ := planned_spec compiled op reaches.mem
  have two := pairs g hg (multiplies ▸ plans.operation)
  rw [← plans.inputs, (Outcome.mapM_eq_some_iff.1 hread).length_eq] at two
  omega

/-- Under registered parameters no product of three or more stays within the noise budget. -/
theorem refreshesWide_registered (s : Scheme)
    (noise : Holds (fun ct => ct.noise ≥ baseNoise - 1e-9) bound) :
    c.RefreshesWide (Parameters.registered s).engine limit key bound plan := by
  intro op inputs ev evaluated multiplies three
  obtain ⟨wires, reaches, hread⟩ := evaluated.reached
  have start : Holds Ciphertext.Noisy bound :=
    fun w ct found => leastNoise_atLeast.of_le (by decide) (noise w ct found)
  have noisy := reaches.holds (Engine.preserves_noisy (growing_registered s)) start
  have result := evaluated.result
  rw [multiplies] at result
  exact Engine.refreshed_of_product (growing_registered s) (noisy.read hread) three result

/-! ## 3. Runs -/

/-- An operation reports a depth if its result is beyond the limit, and for no other reason. -/
theorem exists_evaluate_of_tooDeep {depth most : Int} {name : Option Text}
    (h : c.step e limit key wires op = .error (.field (.circuitTooDeep depth most name))) :
    ∃ inputs ev, op.inputs.mapM (Entries.get? wires) = some inputs ∧
      e.evaluate op.operation inputs op.rotationAmount (c.refreshes op) key = .ok ev ∧
      limit < ev.ciphertext.depth := by
  cases hread : op.inputs.mapM (Entries.get? wires) with
  | none => simp [step, hread] at h
  | some inputs =>
    rw [step_of_read hread] at h
    rcases Outcome.bind_eq_error_iff.1 h with h | ⟨ev, hev, h⟩
    · obtain ⟨fault, -, same⟩ := Outcome.mapError_eq_error_iff.1 h
      exact absurd same.symm (Engine.failure_ne_circuitTooDeep fault depth most name)
    · split at h
      case isTrue deep => exact ⟨inputs, ev, rfl, Outcome.mapError_eq_ok_iff.1 hev, deep⟩
      case isFalse => cases h

/-- A run reports a depth if the result of some operation is beyond the limit. -/
theorem exists_evaluated_of_tooDeep {depth most : Int} {name : Option Text}
    (h : c.run e limit bound key plan = .error (.field (.circuitTooDeep depth most name))) :
    ∃ op ∈ plan.operations, ∃ inputs ev, c.Evaluated e limit key bound plan op inputs ev ∧
      limit < ev.ciphertext.depth := by
  by_cases supplied : c.Supplied bound
  · rw [run_of_supplied supplied] at h
    rcases Outcome.bind_eq_error_iff.1 h with stops | ⟨_, -, uncollected⟩
    · obtain ⟨op, wires, reaches, stops⟩ := exists_reaches_of_error stops
      obtain ⟨inputs, ev, hread, hev, deep⟩ := exists_evaluate_of_tooDeep stops
      exact ⟨op, reaches.mem, inputs, ev, ⟨supplied, ⟨wires, reaches, hread⟩, hev⟩, deep⟩
    · obtain ⟨same, -⟩ := collect_eq_error_iff.1 uncollected
      simp [Failure.missingKey] at same
  · -- What is supplied is checked first, and is reported as a matter of the wiring.
    dsimp only [run] at h
    split at h
    case isTrue => simp at h
    case isFalse missing =>
      split at h
      case isTrue => simp at h
      case isFalse undeclared => exact absurd ⟨by simpa using missing, by simpa using undeclared⟩ supplied

/-- From fresh inputs on, every result is within the depth that its wire has if a product of n factors counts
n - 1. It is within the planned depth, and no depth is reported, if every product of three or more is
refreshed. That is so where no gate multiplies more than two, and under registered parameters if the noise of
the inputs is not below the least noise. -/
theorem realized_depth_bounded (c : Circuit) (e : Engine Float) (limit : Int) (growth : GrowthFactors Float)
    (key : Option BootstrappingKey) (bound : Wires) (plan : Plan) (compiled : c.compile limit growth = .ok plan)
    (fresh : ∀ w ct, Entries.get? bound w = some ct → ct.depth = 0) :
    (∀ op inputs ev, c.Evaluated e limit key bound plan op inputs ev →
        ∃ d, c.HasCost Operation.products op.output d ∧ ev.ciphertext.depth ≤ d) ∧
      (c.RefreshesWide e limit key bound plan →
        (∀ op inputs ev, c.Evaluated e limit key bound plan op inputs ev → ev.ciphertext.depth ≤ op.depth) ∧
          ∀ depth most name,
            c.execute e limit bound key ≠ .error (.field (.circuitTooDeep depth most name))) ∧
      ((∀ g ∈ c.gates, g.operation? = some .multiply → g.inputs.length ≤ 2) →
        c.RefreshesWide e limit key bound plan) ∧
      ∀ s, e = (Parameters.registered s).engine →
        (∀ w ct, Entries.get? bound w = some ct → ct.noise ≥ baseNoise - 1e-9) →
          c.RefreshesWide e limit key bound plan := by
  have planned (refreshes : c.RefreshesWide e limit key bound plan) (op inputs ev)
      (evaluated : c.Evaluated e limit key bound plan op inputs ev) : ev.ciphertext.depth ≤ op.depth := by
    obtain ⟨wires, reaches, -⟩ := evaluated.reached
    obtain ⟨-, depth, -⟩ := planned_spec compiled op reaches.mem
    obtain ⟨d, cost, le⟩ := evaluated.le_cost compiled fresh (withinCost_planned refreshes)
    rw [hasCost_plannedCost] at cost
    rwa [HasDepth.unique (exists_compile_iff.1 ⟨plan, compiled⟩).wired depth cost]
  refine ⟨fun op inputs ev evaluated => evaluated.le_cost compiled fresh withinCost_products,
    fun refreshes => ⟨planned refreshes, fun depth most name h => ?_⟩, refreshesWide_of_pairs compiled, ?_⟩
  · rw [execute_eq_run compiled] at h
    obtain ⟨op, hop, inputs, ev, evaluated, deep⟩ := exists_evaluated_of_tooDeep h
    obtain ⟨within, -, -⟩ := planned_spec compiled op hop
    have le := planned refreshes op inputs ev evaluated
    omega
  · rintro s rfl noise
    exact refreshesWide_registered s noise

/-- One gate, which takes the third power of its input. -/
def cube : Circuit where
  name := "cube"
  inputs := ["x"]
  outputs := ["p"]
  gates := [⟨"multiply", ["x", "x", "x"], "p", []⟩]
  autoBootstrap := true

def cubeInputs : Wires := [("x", freshInput)]

def cubeOperation : PlannedOperation := ⟨0, .multiply, ["x", "x", "x"], "p", 1, 1, .null⟩

theorem fresh_cubeInputs : ∀ w ct, Entries.get? cubeInputs w = some ct → ct.depth = 0 := by
  have each : ∀ p ∈ cubeInputs, p.2.depth = 0 := by decide
  exact fun w ct found => each (w, ct) (Entries.mem_of_get? found)

theorem supplied_cubeInputs : cube.Supplied cubeInputs := by
  unfold Supplied
  decide

/-- The third power is exhausted and refreshed, no deeper than planned, and no depth is reported. -/
theorem realized_depth_bounded_cube : ∃ plan ev, cube.compile 1 .standard = .ok plan ∧
    cube.Evaluated (Parameters.registered .tfhe).engine 1 none cubeInputs plan cubeOperation
      [freshInput, freshInput, freshInput] ev ∧
    (∃ d, cube.HasCost Operation.products "p" d ∧ ev.ciphertext.depth ≤ d) ∧ ev.refreshed = true ∧
    ev.ciphertext.depth ≤ cubeOperation.depth ∧
      ∀ depth most name, cube.execute (Parameters.registered .tfhe).engine 1 cubeInputs none
        ≠ .error (.field (.circuitTooDeep depth most name)) := by
  obtain ⟨plan, compiled, operations⟩ : ∃ plan, cube.compile 1 .standard = .ok plan ∧
      plan.operations = [cubeOperation] := ⟨_, rfl, rfl⟩
  obtain ⟨ev, result⟩ : ∃ ev, (Parameters.registered .tfhe).engine.evaluate .multiply
      [freshInput, freshInput, freshInput] 1 true none = .ok ev := ⟨_, rfl⟩
  have evaluated : cube.Evaluated (Parameters.registered .tfhe).engine 1 none cubeInputs plan cubeOperation
      [freshInput, freshInput, freshInput] ev :=
    ⟨supplied_cubeInputs, ⟨cubeInputs, ⟨[], [], operations, rfl⟩, rfl⟩, result⟩
  have noise : ∀ w ct, Entries.get? cubeInputs w = some ct → ct.noise ≥ baseNoise - 1e-9 := by
    have each : ∀ p ∈ cubeInputs, p.2.noise ≥ baseNoise - 1e-9 := by decide +kernel
    exact fun w ct found => each (w, ct) (Entries.mem_of_get? found)
  obtain ⟨counted, planned, -, registered⟩ := realized_depth_bounded cube (Parameters.registered .tfhe).engine 1
    .standard none cubeInputs plan compiled fresh_cubeInputs
  have refreshes := registered .tfhe rfl noise
  obtain ⟨le, shallow⟩ := planned refreshes
  exact ⟨plan, ev, compiled, evaluated, counted _ _ _ evaluated, refreshes _ _ _ evaluated rfl (by decide),
    le _ _ _ evaluated, shallow⟩

/-- Registered parameters but for the growth of products, which is slow enough that a third power stays within
the noise budget. -/
def slowGrowth : Parameters :=
  let p := Parameters.registered .tfhe
  { p with growth := { p.growth with multiply := 1.0 } }

/-- With slower growth the third power stays within the noise budget. It is then deeper than planned, and a
circuit that compiles is reported as too deep when it is run. -/
theorem slowGrowth_cube_tooDeep : slowGrowth.validate = .ok () ∧
    (∀ w ct, Entries.get? cubeInputs w = some ct → ct.depth = 0) ∧
      ∃ plan ev, cube.compile 1 slowGrowth.growth = .ok plan ∧
        cube.Evaluated slowGrowth.engine 1 none cubeInputs plan cubeOperation
          [freshInput, freshInput, freshInput] ev ∧ cubeOperation.depth < ev.ciphertext.depth ∧
        cube.execute slowGrowth.engine 1 cubeInputs none
          = .error (.field (.circuitTooDeep 2 1 (some cube.name))) := by
  obtain ⟨plan, compiled, operations⟩ : ∃ plan, cube.compile 1 slowGrowth.growth = .ok plan ∧
      plan.operations = [cubeOperation] := ⟨_, rfl, rfl⟩
  obtain ⟨ev, result, deep⟩ : ∃ ev, slowGrowth.engine.evaluate .multiply
      [freshInput, freshInput, freshInput] 1 true none = .ok ev ∧ cubeOperation.depth < ev.ciphertext.depth :=
    ⟨_, rfl, by decide +kernel⟩
  refine ⟨rfl, fresh_cubeInputs, plan, ev, compiled,
    ⟨supplied_cubeInputs, ⟨cubeInputs, ⟨[], [], operations, rfl⟩, rfl⟩, result⟩, deep, ?_⟩
  rfl

end SealedFields.Circuit
