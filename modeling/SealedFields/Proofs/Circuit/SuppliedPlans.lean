import SealedFields.Proofs.Circuit.Writes

/-!
# Plans from elsewhere

A plan that is supplied need not be the circuit's own, and nothing that the compiler has checked holds of
it. Its operations are guarded nevertheless: one that reads a wire which is not bound is refused, and the
report lists the wires. The declared outputs are not guarded. Where the plan runs to its end, an output
that is neither supplied nor written is a missing key.
-/

namespace SealedFields.Circuit

/-- Whatever plan is run, an operation that reads a wire which is not bound is refused with a report of its
wiring. A key is missing exactly if all operations succeed and some declared output is neither an input nor
written by one of them. -/
theorem supplied_plan_missing_key_iff (c : Circuit) (e : Engine Float) (limit : Int)
    (key : Option BootstrappingKey) (bound : Wires) (plan : Plan) (supplied : c.Supplied bound) :
    (∀ op wires, c.Reaches e limit key bound plan op wires → (∃ w ∈ op.inputs, w ∉ wires.map (·.1)) →
        c.run e limit bound key plan = .error (.field (.circuitDependency
          ("gate " ++ Text.ofNat op.index ++ " reached before its inputs were bound")
          (op.inputs.filter (!Entries.has wires ·))))) ∧
      (c.run e limit bound key plan = .error .missingKey ↔
        (∃ wires, plan.operations.foldlM (c.step e limit key) bound = .ok wires) ∧
          ∃ w ∈ c.outputs, w ∉ c.inputs ∧ w ∉ plan.operations.map (·.output)) := by
  have ending {wires : Wires} (ran : plan.operations.foldlM (c.step e limit key) bound = .ok wires) (w : Text) :
      w ∉ wires.map (·.1) ↔ w ∉ c.inputs ∧ w ∉ plan.operations.map (·.output) := by
    rw [mem_wires_iff ran, supplied.mem_keys_iff, not_or]
  refine ⟨fun op wires reaches unbound => reaches.run_eq_error supplied (step_of_unbound unbound), ?_⟩
  rw [run_of_supplied supplied, Outcome.bind_eq_error_iff]
  constructor
  · rintro (stopped | ⟨wires, ran, uncollected⟩)
    · exact absurd stopped (foldlM_step_ne_missingKey _)
    · obtain ⟨-, w, hw, free⟩ := collect_eq_error_iff.1 uncollected
      exact ⟨⟨wires, ran⟩, w, hw, (ending ran w).1 free⟩
  · rintro ⟨⟨wires, ran⟩, w, hw, free⟩
    exact .inr ⟨wires, ran, collect_eq_error_iff.2 ⟨rfl, w, hw, (ending ran w).2 free⟩⟩

/-- One gate, which negates. -/
def negation (input output : Text) : Circuit where
  name := "negation"
  inputs := [input]
  outputs := [output]
  gates := [⟨"negate", [input], output, []⟩]
  autoBootstrap := true

def negationPlan (input output : Text) : Plan :=
  ⟨[⟨0, .negate, [input], output, 0, 1, .null⟩], 1, 1, 0, baseNoise⟩

def negationInput : Wires := [("x", ⟨[2], 3.2, 0, 2, false, false⟩)]

/-- The plan of a circuit with another input reads a wire that is not bound, which is reported. -/
theorem supplied_plan_missing_key_iff_otherInput :
    (negation "z" "y").compile 20 .standard = .ok (negationPlan "z" "y") ∧
      (negation "x" "y").Supplied negationInput ∧
      (negation "x" "y").run (Parameters.registered .tfhe).engine 20 negationInput none (negationPlan "z" "y")
        = .error (.field (.circuitDependency
          ("gate " ++ Text.ofNat 0 ++ " reached before its inputs were bound") ["z"])) := by
  have supplied : (negation "x" "y").Supplied negationInput := by
    unfold Supplied
    decide
  obtain ⟨guarded, -⟩ := supplied_plan_missing_key_iff (negation "x" "y") (Parameters.registered .tfhe).engine
    20 none negationInput (negationPlan "z" "y") supplied
  exact ⟨rfl, supplied, guarded _ negationInput ⟨[], [], rfl, rfl⟩ ⟨"z", List.mem_cons_self, by decide⟩⟩

/-- The plan of a circuit with another output runs to its end. The declared output is then a missing key,
and no report of the wiring is made. -/
theorem supplied_plan_otherOutput :
    (negation "x" "y").compile 20 .standard = .ok (negationPlan "x" "y") ∧
      (negation "x" "z").Supplied negationInput ∧
      (negation "x" "z").run (Parameters.registered .tfhe).engine 20 negationInput none (negationPlan "x" "y")
        = .error .missingKey := by
  have supplied : (negation "x" "z").Supplied negationInput := by
    unfold Supplied
    decide
  exact ⟨rfl, supplied, rfl⟩

end SealedFields.Circuit
