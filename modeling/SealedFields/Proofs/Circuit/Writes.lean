import Mathlib.Data.List.Induction
import SealedFields.Circuit.Run
import SealedFields.Proofs.Engine.Faults
import SealedFields.Proofs.Entries

/-!
# What a run writes

Any plan may be run, wherever it comes from. Each of its operations writes one ciphertext, so that after
the run exactly the supplied wires and the plan's outputs are bound. A wire that is not bound may be read
in two places. An operation that reads it is refused with a report. The answer is collected without such
a guard, and a declared output that is not bound is a missing key.
-/

namespace SealedFields.Circuit

variable {c : Circuit} {e : Engine Float} {limit : Int} {key : Option BootstrappingKey}
  {bound wires wires' : Wires}

/-! ## 1. One operation -/

/-- An operation that reads a wire which is not bound is refused, and all such wires are reported. -/
theorem step_of_unbound {op : PlannedOperation} (unbound : ∃ w ∈ op.inputs, w ∉ wires.map (·.1)) :
    c.step e limit key wires op = .error (.field (.circuitDependency
      ("gate " ++ Text.ofNat op.index ++ " reached before its inputs were bound")
      (op.inputs.filter (!Entries.has wires ·)))) := by
  unfold step
  cases hread : op.inputs.mapM (Entries.get? wires) with
  | none => rfl
  | some inputs =>
    obtain ⟨w, hw, free⟩ := unbound
    obtain ⟨ct, -, hct⟩ := Outcome.exists_of_mem_left (Outcome.mapM_eq_some_iff.1 hread) hw
    exact absurd (Entries.mem_keys_iff.2 ⟨ct, hct⟩) free

theorem step_of_read {op : PlannedOperation} {inputs : List (Ciphertext Float)}
    (hread : op.inputs.mapM (Entries.get? wires) = some inputs) :
    c.step e limit key wires op =
      (e.evaluate op.operation inputs op.rotationAmount (c.refreshes op) key).mapError EngineFault.failure >>=
        fun evaluation =>
          if limit < evaluation.ciphertext.depth then
            .error (.field (.circuitTooDeep evaluation.ciphertext.depth limit (some c.name)))
          else .ok (Entries.put op.output evaluation.ciphertext wires) := by
  unfold step
  rw [hread]
  rfl

theorem step_eq_ok_iff {wires wires' : Wires} {op : PlannedOperation} :
    c.step e limit key wires op = .ok wires' ↔ ∃ inputs evaluation,
      op.inputs.mapM (Entries.get? wires) = some inputs ∧
      e.evaluate op.operation inputs op.rotationAmount (c.refreshes op) key = .ok evaluation ∧
      (evaluation.ciphertext.depth : Int) ≤ limit ∧
      wires' = Entries.put op.output evaluation.ciphertext wires := by
  unfold step
  cases hread : op.inputs.mapM (Entries.get? wires) with
  | none => simp
  | some inputs =>
    simp only [Outcome.bind_eq_ok_iff, Outcome.mapError_eq_ok_iff]
    constructor
    · rintro ⟨evaluation, hev, h⟩
      split at h
      case isTrue => cases h
      case isFalse shallow =>
        exact ⟨inputs, evaluation, rfl, hev, by omega, (Except.ok.inj h).symm⟩
    · rintro ⟨inputs', evaluation, hinputs, hev, shallow, rfl⟩
      obtain rfl := Option.some.inj hinputs
      refine ⟨evaluation, hev, ?_⟩
      rw [if_neg (by omega)]
      rfl

/-- The guard of an operation's reads leaves no missing key behind. -/
theorem step_ne_missingKey (op : PlannedOperation) :
    c.step e limit key wires op ≠ .error .missingKey := by
  cases hread : op.inputs.mapM (Entries.get? wires) with
  | none =>
    intro h
    simp [step, hread, Failure.missingKey] at h
  | some inputs =>
    rw [step_of_read hread]
    intro h
    rcases Outcome.bind_eq_error_iff.1 h with h | ⟨evaluation, -, h⟩
    · obtain ⟨fault, -, same⟩ := Outcome.mapError_eq_error_iff.1 h
      exact Engine.failure_ne_missingKey fault same.symm
    · split at h
      case isTrue => simp [Failure.missingKey] at h
      case isFalse => cases h

/-! ## 2. All operations -/

/-- The wires that the operations write, in their order, with the ciphertexts. Each operation reads what
is bound by then. -/
inductive Writes (c : Circuit) (e : Engine Float) (limit : Int) (key : Option BootstrappingKey) :
    Wires → List PlannedOperation → Wires → Prop
  | nil {wires : Wires} : Writes c e limit key wires [] []
  | cons {wires writes : Wires} {op : PlannedOperation} {ops : List PlannedOperation}
      {ct : Ciphertext Float} (here : c.step e limit key wires op = .ok (Entries.put op.output ct wires))
      (later : Writes c e limit key (Entries.put op.output ct wires) ops writes) :
      Writes c e limit key wires (op :: ops) ((op.output, ct) :: writes)

theorem Writes.map_fst {ops : List PlannedOperation} {writes : Wires}
    (h : c.Writes e limit key wires ops writes) : writes.map (·.1) = ops.map (·.output) := by
  induction h with
  | nil => rfl
  | cons _ _ ih => rw [List.map_cons, List.map_cons, ih]

/-- Operations that succeed have written, and nothing else has changed. -/
theorem foldlM_step_eq_ok_iff {ops : List PlannedOperation} :
    ops.foldlM (c.step e limit key) wires = .ok wires' ↔
      ∃ writes, c.Writes e limit key wires ops writes ∧ wires' = Entries.merge wires writes := by
  induction ops generalizing wires with
  | nil =>
    constructor
    · intro h
      exact ⟨[], .nil, (Except.ok.inj h).symm⟩
    · rintro ⟨_, ⟨⟩, rfl⟩
      rfl
  | cons op ops ih =>
    rw [List.foldlM_cons, Outcome.bind_eq_ok_iff]
    constructor
    · rintro ⟨next, here, later⟩
      obtain ⟨_, evaluation, -, -, -, rfl⟩ := step_eq_ok_iff.1 here
      obtain ⟨writes, hwrites, rfl⟩ := ih.1 later
      exact ⟨_, .cons here hwrites, rfl⟩
    · rintro ⟨_, written, rfl⟩
      cases written with
      | cons here later => exact ⟨_, here, ih.2 ⟨_, later, rfl⟩⟩

/-- After the operations their outputs are bound, besides what was bound before. -/
theorem mem_wires_iff {ops : List PlannedOperation} (h : ops.foldlM (c.step e limit key) wires = .ok wires')
    {w : Text} : w ∈ wires'.map (·.1) ↔ w ∈ wires.map (·.1) ∨ w ∈ ops.map (·.output) := by
  obtain ⟨writes, hwrites, rfl⟩ := foldlM_step_eq_ok_iff.1 h
  rw [Entries.mem_keys_merge_iff, hwrites.map_fst]

theorem foldlM_step_ne_missingKey (ops : List PlannedOperation) :
    ops.foldlM (c.step e limit key) wires ≠ .error .missingKey := by
  induction ops generalizing wires with
  | nil =>
    intro h
    cases h
  | cons op ops ih =>
    rw [List.foldlM_cons]
    intro h
    rcases Outcome.bind_eq_error_iff.1 h with here | ⟨next, -, later⟩
    · exact step_ne_missingKey op here
    · exact ih later

/-! ## 3. The answer -/

theorem given_unique (w : Text) (a b : Ciphertext Float) (ha : Entries.get? bound w = some a)
    (hb : Entries.get? bound w = some b) : a = b := Option.some.inj (ha.symm.trans hb)

/-- The declared outputs with their ciphertexts are collected as soon as they are all bound. -/
theorem collect_eq_ok_iff {wires result : Wires} :
    c.collect wires = .ok result ↔ ∃ cts,
      List.Forall₂ (fun w ct => Entries.get? wires w = some ct) c.outputs cts ∧
        result = Entries.ofWrites (c.outputs.zip cts) := by
  unfold collect
  split
  case h_1 found h =>
    obtain ⟨cts, hcts, rfl⟩ := Outcome.mapM_pair_eq_some_iff.1 h
    constructor
    · intro h
      exact ⟨cts, hcts, (Except.ok.inj h).symm⟩
    · rintro ⟨cts', hcts', rfl⟩
      have unique : Relator.RightUnique fun w ct => Entries.get? wires w = some ct :=
        fun w _ _ => given_unique w _ _
      rw [List.right_unique_forall₂' unique hcts hcts']
  case h_2 h =>
    refine ⟨fun h => (by cases h), ?_⟩
    rintro ⟨cts, hcts, rfl⟩
    rw [Outcome.mapM_pair_eq_some_iff.2 ⟨cts, hcts, rfl⟩] at h
    cases h

theorem exists_collect_iff :
    (∃ result, c.collect wires = .ok result) ↔ ∀ w ∈ c.outputs, w ∈ wires.map (·.1) := by
  simp only [collect_eq_ok_iff, Entries.mem_keys_iff]
  constructor
  · rintro ⟨_, cts, hcts, rfl⟩ w hw
    obtain ⟨ct, -, hct⟩ := Outcome.exists_of_mem_left hcts hw
    exact ⟨ct, hct⟩
  · intro all
    obtain ⟨cts, hcts⟩ := Outcome.exists_forall₂ all
    exact ⟨_, cts, hcts, rfl⟩

/-- Collecting the answer fails by a missing key only, once a declared output is not bound. -/
theorem collect_eq_error_iff {f : Failure} :
    c.collect wires = .error f ↔ f = .missingKey ∧ ∃ w ∈ c.outputs, w ∉ wires.map (·.1) := by
  have kind (f : Failure) (h : c.collect wires = .error f) : f = .missingKey := by
    unfold collect at h
    split at h
    case h_1 => cases h
    case h_2 => exact (Except.error.inj h).symm
  constructor
  · intro h
    refine ⟨kind f h, ?_⟩
    by_contra all
    push Not at all
    obtain ⟨result, ok⟩ := exists_collect_iff.2 all
    rw [h] at ok
    cases ok
  · rintro ⟨rfl, w, hw, free⟩
    cases h : c.collect wires with
    | ok result => exact absurd (exists_collect_iff.1 ⟨result, h⟩ w hw) free
    | error f => rw [kind f h]

/-- The answer binds the declared outputs and nothing else, each to the wire's ciphertext. -/
theorem collect_spec {result : Wires} (h : c.collect wires = .ok result) :
    (result.map (·.1)).Nodup ∧ (∀ w, w ∈ result.map (·.1) ↔ w ∈ c.outputs) ∧
      ∀ w ∈ c.outputs, Entries.get? result w = Entries.get? wires w := by
  obtain ⟨cts, hcts, rfl⟩ := collect_eq_ok_iff.1 h
  have none : (([] : Wires).map (·.1)).Nodup := List.nodup_nil
  refine ⟨Entries.nodup_merge none _, fun w => ?_, fun w hw => ?_⟩
  · rw [Entries.ofWrites, Entries.mem_keys_merge_iff, List.map_fst_zip (Nat.le_of_eq hcts.length_eq)]
    simp
  · obtain ⟨ct, mem, hct⟩ := Outcome.exists_mem_zip hcts hw
    rw [hct]
    apply Entries.get?_ofWrites mem
    exact fun ct' mem' => given_unique w ct' ct (List.forall₂_zip hcts mem') hct

/-! ## 4. The run -/

def Supplied (c : Circuit) (bound : Wires) : Prop :=
  (∀ w ∈ c.inputs, Entries.has bound w = true) ∧ ∀ w ∈ bound.map (·.1), w ∈ c.inputs

theorem Supplied.mem_keys_iff (supplied : c.Supplied bound) {w : Text} :
    w ∈ bound.map (·.1) ↔ w ∈ c.inputs := by
  refine ⟨supplied.2 w, fun hw => ?_⟩
  rw [← Entries.get?_isSome_iff, ← Entries.has_eq_isSome]
  exact supplied.1 w hw

/-- With exactly the declared inputs supplied, a run is its operations and the answer. -/
theorem run_of_supplied (supplied : c.Supplied bound) (plan : Plan) :
    c.run e limit bound key plan = plan.operations.foldlM (c.step e limit key) bound >>= c.collect := by
  have missing : c.inputs.filter (!Entries.has bound ·) = [] := by
    simpa using supplied.1
  have undeclared : (bound.map (·.1)).filter (!c.inputs.contains ·) = [] := by
    simpa using supplied.2
  unfold run
  rw [missing, undeclared]
  rfl

theorem run_eq_ok_iff {plan : Plan} {result : Wires} :
    c.run e limit bound key plan = .ok result ↔ c.Supplied bound ∧
      ∃ wires, plan.operations.foldlM (c.step e limit key) bound = .ok wires ∧
        c.collect wires = .ok result := by
  -- The two guards, said of wires instead of lists.
  have missing : (c.inputs.filter (!Entries.has bound ·)).isEmpty = true ↔
      ∀ w ∈ c.inputs, Entries.has bound w = true := by simp [List.isEmpty_iff]
  have undeclared : ((bound.map (·.1)).filter (!c.inputs.contains ·)).isEmpty = true ↔
      ∀ w ∈ bound.map (·.1), w ∈ c.inputs := by simp [List.isEmpty_iff]
  unfold run Supplied
  rw [← missing, ← undeclared]
  by_cases hm : (c.inputs.filter (!Entries.has bound ·)).isEmpty = true
  · by_cases hu : ((bound.map (·.1)).filter (!c.inputs.contains ·)).isEmpty = true
    · simp only [hm, hu, Bool.not_true, Bool.false_eq_true, if_false, Outcome.bind_eq_ok_iff, true_and]
    · rw [if_neg (by simp [hm]), if_pos (by simpa using hu)]
      simp only [hu, reduceCtorEq, and_false, false_and]
  · rw [if_pos (by simpa using hm)]
    simp [hm]

/-- An operation is reached with certain wires: those before it have been evaluated. -/
def Reaches (c : Circuit) (e : Engine Float) (limit : Int) (key : Option BootstrappingKey) (bound : Wires)
    (plan : Plan) (op : PlannedOperation) (wires : Wires) : Prop :=
  ∃ before after, plan.operations = before ++ op :: after ∧
    before.foldlM (c.step e limit key) bound = .ok wires

theorem Reaches.mem {plan : Plan} {op : PlannedOperation}
    (reaches : c.Reaches e limit key bound plan op wires) : op ∈ plan.operations := by
  obtain ⟨before, after, operations, -⟩ := reaches
  rw [operations]
  simp

/-- A run stops where one of its operations does. -/
theorem Reaches.run_eq_error {plan : Plan} {op : PlannedOperation} {f : Failure}
    (reaches : c.Reaches e limit key bound plan op wires) (supplied : c.Supplied bound)
    (stops : c.step e limit key wires op = .error f) : c.run e limit bound key plan = .error f := by
  obtain ⟨before, after, operations, ran⟩ := reaches
  rw [run_of_supplied supplied, operations, List.foldlM_append, ran]
  rw [Outcome.bind_eq_error_iff]
  refine .inl ?_
  rw [Outcome.bind_eq_error_iff]
  refine .inr ⟨wires, rfl, ?_⟩
  rw [List.foldlM_cons, Outcome.bind_eq_error_iff]
  exact .inl stops

/-- What holds of the supplied wires and is kept by every operation that is reached holds wherever the run
gets. -/
theorem Reaches.invariant {plan : Plan} {P : Wires → Prop} (start : P bound)
    (kept : ∀ op wires wires', c.Reaches e limit key bound plan op wires → P wires →
      c.step e limit key wires op = .ok wires' → P wires')
    {op : PlannedOperation} (reaches : c.Reaches e limit key bound plan op wires) : P wires := by
  -- Induction on the operations before, the last of which has been reached itself.
  obtain ⟨before, after, operations, ran⟩ := reaches
  induction before using List.reverseRecOn generalizing op after wires with
  | nil =>
    obtain rfl := Except.ok.inj ran
    exact start
  | append_singleton before last ih =>
    rw [List.append_assoc] at operations
    rw [List.foldlM_append] at ran
    obtain ⟨earlier, first, second⟩ := Outcome.bind_eq_ok_iff.1 ran
    rw [List.foldlM_cons] at second
    obtain ⟨_, here, same⟩ := Outcome.bind_eq_ok_iff.1 second
    obtain rfl := Except.ok.inj same
    exact kept last earlier _ ⟨before, _, operations, first⟩ (ih _ operations first) here

/-- Operations stop where one of them, having been reached, does. -/
theorem exists_reaches_of_error {plan : Plan} {f : Failure}
    (h : plan.operations.foldlM (c.step e limit key) bound = .error f) :
    ∃ op wires, c.Reaches e limit key bound plan op wires ∧ c.step e limit key wires op = .error f := by
  have later (ops before : List PlannedOperation) (wires : Wires) (operations : plan.operations = before ++ ops)
      (ran : before.foldlM (c.step e limit key) bound = .ok wires)
      (h : ops.foldlM (c.step e limit key) wires = .error f) :
      ∃ op wires, c.Reaches e limit key bound plan op wires ∧ c.step e limit key wires op = .error f := by
    induction ops generalizing before wires with
    | nil => cases h
    | cons op ops ih =>
      rw [List.foldlM_cons] at h
      rcases Outcome.bind_eq_error_iff.1 h with stops | ⟨next, here, h⟩
      · exact ⟨op, wires, ⟨before, ops, operations, ran⟩, stops⟩
      · refine ih (before ++ [op]) next (by rw [operations, List.append_assoc]; rfl) ?_ h
        rw [List.foldlM_append, Outcome.bind_eq_ok_iff]
        refine ⟨wires, ran, ?_⟩
        rw [List.foldlM_cons, here]
        rfl
  exact later plan.operations [] bound rfl rfl h

end SealedFields.Circuit
