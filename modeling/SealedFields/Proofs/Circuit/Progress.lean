import SealedFields.Proofs.Circuit.Execution

/-!
# A compiled circuit does not get stuck

What the compiler has checked is all that a run of the circuit's own plan needs: every wire is bound by the
time an operation reads it, every operation has as many inputs as it takes, no operation writes a wire that
is bound already, and in the end every declared output is bound. What is left to go wrong is the account
of the ciphertexts and a bootstrapping key of another scheme.
-/

namespace SealedFields.Circuit

open Outcome (FailsOnly)

variable {c : Circuit} {e : Engine Float} {limit : Int} {growth : GrowthFactors Float}
  {key : Option BootstrappingKey} {bound wires : Wires} {plan : Plan}

/-! ## 1. Why a run may stop -/

inductive MayStop (c : Circuit) (e : Engine Float) (limit : Int) (key : Option BootstrappingKey) :
    Failure → Prop
  | engine {fault : EngineFault Float} (may : e.MayFail key fault) : MayStop c e limit key fault.failure
  | tooDeep {depth : Nat} (deep : limit < depth) :
      MayStop c e limit key (.field (.circuitTooDeep depth limit (some c.name)))

/-- None of these reasons is a mistake of the wiring; an operation is refused because of the key only. -/
theorem MayStop.kind {f : Failure} (h : c.MayStop e limit key f) :
    f.kind ∉ [.circuitDependency, .arity, .missingKey] ∧
      (f.kind = .unsupportedOperation → ∃ k, key = some k ∧ k.scheme ≠ e.scheme) := by
  cases h with
  | engine may =>
    cases may with
    | ciphertext fault => simp [EngineFault.failure, Ciphertext.Fault.failure, Failure.kind]
    | noise level op => simp [EngineFault.failure, Failure.kind, FieldError.kind]
    | @foreignKey k given foreign =>
      refine ⟨?_, fun _ => ⟨k, given, foreign⟩⟩
      simp [EngineFault.failure, Failure.kind, FieldError.kind]
  | tooDeep deep => simp [Failure.kind, FieldError.kind]

theorem failsOnly_step {op : PlannedOperation} (reads : ∀ w ∈ op.inputs, ∃ ct, Entries.get? wires w = some ct)
    (accepts : op.operation.accepts op.inputs.length = true) :
    FailsOnly (c.MayStop e limit key) (c.step e limit key wires op) := by
  obtain ⟨inputs, hread⟩ := Outcome.exists_mapM_eq_some reads
  rw [(Outcome.mapM_eq_some_iff.1 hread).length_eq] at accepts
  rw [step_of_read hread]
  refine .bind (.mapError (Engine.failsOnly_evaluate accepts) fun fault => .engine) fun evaluation => ?_
  split
  case isTrue deep =>
    intro f h
    obtain rfl := Except.error.inj h
    exact .tooDeep deep
  case isFalse => exact .ok _

/-- Operations that read what is bound by then stop for no other reason. -/
theorem failsOnly_foldlM {gates : List (Nat × Gate)} {ops : List PlannedOperation}
    (plans : List.Forall₂ (fun g op => op.Plans g.1 g.2) gates ops)
    (flows : Flows (fun w => ∃ ct, Entries.get? wires w = some ct) gates)
    (accepts : ∀ op ∈ ops, op.operation.accepts op.inputs.length = true) :
    FailsOnly (c.MayStop e limit key) (ops.foldlM (c.step e limit key) wires) := by
  -- Induction on the plan; what is bound after an operation is what was bound before and its output.
  induction plans generalizing wires with
  | nil => exact .ok wires
  | @cons g op gates ops here _ ih =>
    rw [List.forall_mem_cons] at accepts
    have reads : ∀ w ∈ op.inputs, ∃ ct, Entries.get? wires w = some ct := by
      rw [here.inputs]
      exact flows.1
    rw [List.foldlM_cons]
    intro f h
    rcases Outcome.bind_eq_error_iff.1 h with stops | ⟨next, hstep, stops⟩
    · exact failsOnly_step reads accepts.1 f stops
    · obtain ⟨_, evaluation, -, -, -, rfl⟩ := step_eq_ok_iff.1 hstep
      rw [here.output] at stops
      exact ih (flows.2.put _) accepts.2 f stops

/-! ## 2. Runs of a circuit's own plan -/

/-- Every planned operation has as many inputs as it takes. -/
theorem planned_accepts (compiled : c.compile limit growth = .ok plan) :
    ∀ op ∈ plan.operations, op.operation.accepts op.inputs.length = true := by
  intro op hop
  obtain ⟨gates, all, -, plans⟩ := compile_spec compiled
  obtain ⟨g, hg, planned⟩ := Outcome.exists_of_mem_right plans hop
  obtain ⟨checked, -⟩ := compile_eq_ok_iff.1 compiled
  obtain ⟨op', hop', accepts⟩ := checkGate_eq_ok_iff.1 (checked g.2 ((all g.2).2 ⟨g.1, hg⟩))
  obtain rfl : op' = op.operation := Option.some.inj (hop'.symm.trans planned.operation)
  rw [planned.inputs]
  exact accepts

theorem failsOnly_run (compiled : c.compile limit growth = .ok plan) (supplied : c.Supplied bound) :
    FailsOnly (c.MayStop e limit key) (c.run e limit bound key plan) := by
  rw [run_of_supplied supplied]
  intro f h
  rcases Outcome.bind_eq_error_iff.1 h with stops | ⟨wires, ran, uncollected⟩
  · obtain ⟨gates, -, flows, plans⟩ := compile_spec compiled
    exact failsOnly_foldlM plans (flows.mono supplied.given) (planned_accepts compiled) f stops
  · obtain ⟨-, w, hw, free⟩ := collect_eq_error_iff.1 uncollected
    exact absurd (outputs_bound_of_run compiled supplied ran w hw) free

/-- No operation overwrites a wire. -/
theorem Reaches.unwritten {op : PlannedOperation} (reaches : c.Reaches e limit key bound plan op wires)
    (compiled : c.compile limit growth = .ok plan) (supplied : c.Supplied bound) :
    op.output ∉ wires.map (·.1) := by
  have wired := (exists_compile_iff.1 ⟨plan, compiled⟩).wired
  have outputs := compile_outputs compiled
  obtain ⟨before, after, operations, ran⟩ := reaches
  rw [mem_wires_iff ran, supplied.mem_keys_iff, not_or]
  constructor
  · -- It is a gate's output, and therefore no input.
    have mem : op.output ∈ plan.operations.map (·.output) := by
      rw [operations]
      simp
    rw [outputs.mem_iff, List.mem_map] at mem
    obtain ⟨g, hg, same⟩ := mem
    rw [← same]
    exact wired.fresh g hg
  · -- All outputs are distinct.
    have nodup := outputs.nodup_iff.2 wired.unique
    rw [operations, List.map_append, List.map_cons, List.nodup_append] at nodup
    exact fun mem => nodup.2.2 _ mem _ List.mem_cons_self rfl

/-- Executing a circuit is running its own plan, whatever growth of noise the plan was estimated with. -/
theorem execute_eq_run (compiled : c.compile limit growth = .ok plan) :
    c.execute e limit bound key = c.run e limit bound key plan := by
  obtain ⟨checked, indices, ops, hindices, hops, shallow, rfl⟩ := compile_eq_ok_iff.1 compiled
  have own : c.compile limit e.growth = .ok ⟨ops, c.inputs.length, c.outputs.length, planDepth ops,
      noiseGrowth e.growth ops⟩ :=
    compile_eq_ok_iff.2 ⟨checked, indices, ops, hindices, hops, shallow, rfl⟩
  unfold execute
  rw [own]
  rfl

/-- A run of the circuit's own plan on exactly the declared inputs never stops for a reason of the wiring,
the number of an operation's inputs or a missing key, and refuses an operation only because the
bootstrapping key is for another scheme. Operations write only wires that are not bound yet. A run that
succeeds answers exactly the declared outputs, each with the ciphertext last written on its wire. -/
theorem compiled_never_stuck (c : Circuit) (e : Engine Float) (limit : Int) (growth : GrowthFactors Float)
    (key : Option BootstrappingKey) (bound : Wires) (plan : Plan)
    (compiled : c.compile limit growth = .ok plan) (supplied : c.Supplied bound) :
    c.execute e limit bound key = c.run e limit bound key plan ∧
      (∀ f, c.run e limit bound key plan = .error f →
        f.kind ∉ [.circuitDependency, .arity, .missingKey] ∧
          (f.kind = .unsupportedOperation → ∃ k, key = some k ∧ k.scheme ≠ e.scheme)) ∧
      (∀ op wires, c.Reaches e limit key bound plan op wires → op.output ∉ wires.map (·.1)) ∧
      ∀ result, c.run e limit bound key plan = .ok result →
        ∃ writes, c.Writes e limit key bound plan.operations writes ∧ (result.map (·.1)).Nodup ∧
          (∀ w, w ∈ result.map (·.1) ↔ w ∈ c.outputs) ∧
          ∀ w ∈ c.outputs, Entries.get? result w
            = (Entries.get? writes.reverse w).or (Entries.get? bound w) := by
  refine ⟨execute_eq_run compiled, fun f h => (failsOnly_run compiled supplied f h).kind,
    fun op wires reaches => reaches.unwritten compiled supplied, fun result h => ?_⟩
  rw [run_of_supplied supplied] at h
  obtain ⟨wires, ran, collected⟩ := Outcome.bind_eq_ok_iff.1 h
  obtain ⟨writes, written, rfl⟩ := foldlM_step_eq_ok_iff.1 ran
  obtain ⟨nodup, keys, lookups⟩ := collect_spec collected
  refine ⟨writes, written, nodup, keys, fun w hw => ?_⟩
  rw [lookups w hw, Entries.get?_merge]

/-- A sum that is listed before the product it reads, and a gate that nothing reads. One output is declared
twice, and one is an input. -/
def sumFirst : Circuit where
  name := "sum first"
  inputs := ["x", "y"]
  outputs := ["s", "x", "s"]
  gates := [⟨"Add", ["p", "y"], "s", []⟩, ⟨"rotate", ["y"], "r", [("amount", .int 2)]⟩,
    ⟨"multiply", ["x", "x"], "p", []⟩]
  autoBootstrap := false

/-- A fresh ciphertext and one that has been computed, on its inputs. -/
def sumInputs : Wires := [("y", ⟨[3, 4], 41.5, 7, 3, false, false⟩), ("x", ⟨[2], 3.2, 0, 2, false, false⟩)]

theorem compiled_never_stuck_sumFirst :
    ∃ plan, sumFirst.compile 8 .standard = .ok plan ∧ sumFirst.Supplied sumInputs ∧
      ∃ result, sumFirst.execute (Parameters.registered .tfhe).engine 8 sumInputs none = .ok result ∧
        ∀ w, w ∈ result.map (·.1) ↔ w ∈ sumFirst.outputs := by
  have supplied : sumFirst.Supplied sumInputs := by
    unfold Supplied
    decide
  obtain ⟨plan, compiled⟩ : ∃ plan, sumFirst.compile 8 .standard = .ok plan := ⟨_, rfl⟩
  obtain ⟨result, executed⟩ : ∃ result, sumFirst.execute (Parameters.registered .tfhe).engine 8 sumInputs none
      = .ok result := ⟨_, rfl⟩
  obtain ⟨runs, -, -, answers⟩ := compiled_never_stuck sumFirst (Parameters.registered .tfhe).engine 8
    .standard none sumInputs plan compiled supplied
  obtain ⟨-, -, -, keys, -⟩ := answers result (runs ▸ executed)
  exact ⟨plan, compiled, supplied, result, executed, keys⟩

end SealedFields.Circuit
