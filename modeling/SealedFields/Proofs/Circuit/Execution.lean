import SealedFields.Proofs.Circuit.Compilation
import SealedFields.Proofs.Circuit.Writes

/-!
# What a run computes

A run binds every wire to the ciphertext that the wire carries, read recursively off the gates. It
succeeds exactly if the circuit compiles, exactly the declared inputs are supplied and every gate's
ciphertext exists and is not too deep. None of this depends on how the gates are listed.
-/

namespace SealedFields.Circuit

variable {c : Circuit} {e : Engine Float} {limit : Int} {key : Option BootstrappingKey}
  {bound wires wires' : Wires}

/-! ## 1. The ciphertext on a wire -/

/-- Is an exhausted result of the gate refreshed? The circuit decides where the gate says nothing. -/
def refreshesGate (c : Circuit) (g : Gate) : Bool :=
  match g.autoBootstrap with
  | .null => c.autoBootstrap
  | v => v.isTruthy

/-- What the engine makes of a gate and the ciphertexts on its inputs. -/
def Evaluates (c : Circuit) (e : Engine Float) (key : Option BootstrappingKey) (g : Gate)
    (inputs : List (Ciphertext Float)) (result : Ciphertext Float) : Prop :=
  ∃ op amount evaluation, g.operation? = some op ∧
    (if op = .rotate then g.rotationAmount else .ok 1) = .ok amount ∧
    e.evaluate op inputs amount (c.refreshesGate g) key = .ok evaluation ∧
    result = evaluation.ciphertext

/-- The ciphertext on a wire: the one supplied, or what the wire's gate makes of the ciphertexts on its
inputs. -/
def Carries (c : Circuit) (e : Engine Float) (key : Option BootstrappingKey) (bound : Wires) :
    Text → Ciphertext Float → Prop :=
  c.Denotes (fun w ct => Entries.get? bound w = some ct) (c.Evaluates e key)

theorem Evaluates.unique {g : Gate} {inputs : List (Ciphertext Float)} {a b : Ciphertext Float}
    (ha : c.Evaluates e key g inputs a) (hb : c.Evaluates e key g inputs b) : a = b := by
  obtain ⟨op, amount, ev, hop, hamount, hev, rfl⟩ := ha
  obtain ⟨op', amount', ev', hop', hamount', hev', rfl⟩ := hb
  obtain rfl : op = op' := Option.some.inj (hop.symm.trans hop')
  obtain rfl : amount = amount' := Except.ok.inj (hamount.symm.trans hamount')
  rw [Except.ok.inj (hev.symm.trans hev')]

theorem Carries.unique (wired : c.Wired) {w : Text} {a b : Ciphertext Float}
    (ha : c.Carries e key bound w a) (hb : c.Carries e key bound w b) : a = b := by
  refine Denotes.unique wired given_unique ?_ ha hb
  exact fun g inputs a b => Evaluates.unique

theorem Carries.evaluates (wired : c.Wired) {g : Gate} {inputs : List (Ciphertext Float)}
    {ct : Ciphertext Float} (mem : g ∈ c.gates) (h : c.Carries e key bound g.output ct)
    (carried : List.Forall₂ (c.Carries e key bound) g.inputs inputs) : c.Evaluates e key g inputs ct := by
  refine Denotes.eval_of_inputs wired given_unique ?_ mem h carried
  exact fun g inputs a b => Evaluates.unique

/-! ## 2. One step -/

theorem refreshes_eq {op : PlannedOperation} {g : Gate} (h : op.autoBootstrap = g.autoBootstrap) :
    c.refreshes op = c.refreshesGate g := by
  cases wish : g.autoBootstrap <;> simp only [refreshes, refreshesGate, h, wish]

/-- A step on a planned gate puts out what the gate makes of the ciphertexts it reads. -/
theorem step_of_plans {op : PlannedOperation} {i : Nat} {g : Gate}
    (plans : op.Plans i g) : c.step e limit key wires op = .ok wires' ↔ ∃ inputs result,
      g.inputs.mapM (Entries.get? wires) = some inputs ∧ c.Evaluates e key g inputs result ∧
      (result.depth : Int) ≤ limit ∧ wires' = Entries.put g.output result wires := by
  rw [step_eq_ok_iff, plans.inputs, plans.output, refreshes_eq plans.autoBootstrap]
  constructor
  · rintro ⟨inputs, ev, hread, hev, shallow, rfl⟩
    exact ⟨inputs, _, hread, ⟨_, _, ev, plans.operation, plans.amount, hev, rfl⟩, shallow, rfl⟩
  · rintro ⟨inputs, _, hread, ⟨op', amount, ev, hop, hamount, hev, rfl⟩, shallow, rfl⟩
    obtain rfl : op' = op.operation := Option.some.inj (hop.symm.trans plans.operation)
    obtain rfl : amount = op.rotationAmount := Except.ok.inj (hamount.symm.trans plans.amount)
    exact ⟨inputs, ev, hread, hev, shallow, rfl⟩

/-! ## 3. A whole run -/

/-- A run that succeeds binds every wire to what it carries; no gate's result is too deep. -/
theorem run_agrees {gates : List (Nat × Gate)} {ops : List PlannedOperation}
    (mem : ∀ g ∈ gates, g.2 ∈ c.gates)
    (agrees : c.Agrees (fun w ct => Entries.get? bound w = some ct) (c.Evaluates e key) wires)
    (plans : List.Forall₂ (fun g op => op.Plans g.1 g.2) gates ops)
    (h : ops.foldlM (c.step e limit key) wires = .ok wires') :
    c.Agrees (fun w ct => Entries.get? bound w = some ct) (c.Evaluates e key) wires' ∧
      ∀ g ∈ gates, ∃ ct, c.Carries e key bound g.2.output ct ∧ (ct.depth : Int) ≤ limit := by
  -- Induction on the plan: what a step reads is right, so that what it writes is.
  induction plans generalizing wires with
  | nil =>
    cases h
    exact ⟨agrees, fun g hg => absurd hg List.not_mem_nil⟩
  | @cons g op gates ops here _ ih =>
    rw [List.forall_mem_cons] at mem
    rw [List.foldlM_cons, Outcome.bind_eq_ok_iff] at h
    obtain ⟨next, hstep, h⟩ := h
    obtain ⟨inputs, result, hread, hresult, shallow, rfl⟩ := (step_of_plans here).1 hstep
    have agrees' := agrees.put mem.1 hread hresult
    have carries : c.Carries e key bound g.2.output result := by
      apply agrees' g.2.output
      rw [Entries.get?_put_self]
    obtain ⟨agreed, depths⟩ := ih mem.2 agrees' h
    refine ⟨agreed, ?_⟩
    rw [List.forall_mem_cons]
    exact ⟨⟨result, carries, shallow⟩, depths⟩

/-- A run gets to its end if every gate's ciphertext exists and is not too deep. -/
theorem exists_run {gates : List (Nat × Gate)} {ops : List PlannedOperation} (wired : c.Wired)
    (mem : ∀ g ∈ gates, g.2 ∈ c.gates)
    (agrees : c.Agrees (fun w ct => Entries.get? bound w = some ct) (c.Evaluates e key) wires)
    (flows : Flows (fun w => ∃ ct, Entries.get? wires w = some ct) gates)
    (plans : List.Forall₂ (fun g op => op.Plans g.1 g.2) gates ops)
    (depths : ∀ g ∈ gates, ∃ ct, c.Carries e key bound g.2.output ct ∧ (ct.depth : Int) ≤ limit) :
    ∃ wires', ops.foldlM (c.step e limit key) wires = .ok wires' := by
  induction plans generalizing wires with
  | nil => exact ⟨wires, rfl⟩
  | @cons g op gates ops here _ ih =>
    rw [List.forall_mem_cons] at mem depths
    obtain ⟨⟨ct, carries, shallow⟩, depths⟩ := depths
    obtain ⟨inputs, hread⟩ := Outcome.exists_mapM_eq_some flows.1
    have result := carries.evaluates wired mem.1 (agrees.read hread)
    have hstep := (step_of_plans here).2 ⟨inputs, ct, hread, result, shallow, rfl⟩
    obtain ⟨wires', h⟩ := ih mem.2 (agrees.put mem.1 hread result) (flows.2.put ct) depths
    refine ⟨wires', ?_⟩
    rw [List.foldlM_cons, Outcome.bind_eq_ok_iff]
    exact ⟨_, hstep, h⟩

/-! ## 4. Executing -/

theorem Supplied.given (supplied : c.Supplied bound) (w : Text) (hw : w ∈ c.inputs) :
    ∃ ct, Entries.get? bound w = some ct :=
  Entries.mem_keys_iff.1 (supplied.mem_keys_iff.2 hw)

/-- A run of the circuit's own plan binds all declared outputs: each is an input or some gate's. -/
theorem outputs_bound_of_run {growth : GrowthFactors Float} {plan : Plan}
    (compiled : c.compile limit growth = .ok plan) (supplied : c.Supplied bound)
    (ran : plan.operations.foldlM (c.step e limit key) bound = .ok wires) :
    ∀ w ∈ c.outputs, w ∈ wires.map (·.1) := by
  intro w hw
  have wired := (exists_compile_iff.1 ⟨plan, compiled⟩).wired
  rw [mem_wires_iff ran, supplied.mem_keys_iff, (compile_outputs compiled).mem_iff, List.mem_map]
  exact wired.outputs_bound w hw

/-- What executing a circuit comes to, said without any order of its gates. -/
theorem execute_eq_ok_iff {result : Wires} :
    c.execute e limit bound key = .ok result ↔ c.Compiles limit ∧ c.Supplied bound ∧
      (∀ g ∈ c.gates, ∃ ct, c.Carries e key bound g.output ct ∧ (ct.depth : Int) ≤ limit) ∧
      ∃ cts, List.Forall₂ (c.Carries e key bound) c.outputs cts ∧
        result = Entries.ofWrites (c.outputs.zip cts) := by
  -- At first the wires hold the supplied inputs and nothing else.
  have start (supplied : c.Supplied bound) :
      c.Agrees (fun w ct => Entries.get? bound w = some ct) (c.Evaluates e key) bound := by
    intro w ct h
    exact .input (supplied.mem_keys_iff.1 (Entries.mem_keys_iff.2 ⟨ct, h⟩)) h
  unfold execute
  simp only [Outcome.bind_eq_ok_iff, run_eq_ok_iff, collect_eq_ok_iff]
  constructor
  · rintro ⟨plan, hplan, supplied, wires, hrun, cts, hcts, rfl⟩
    obtain ⟨gates, all, flows, plans⟩ := compile_spec hplan
    have compiles := exists_compile_iff.1 ⟨plan, hplan⟩
    obtain ⟨agrees, depths⟩ := run_agrees (fun g hg => (all g.2).2 ⟨g.1, hg⟩) (start supplied) plans hrun
    refine ⟨compiles, supplied, fun g hg => ?_, cts, hcts.imp agrees, rfl⟩
    obtain ⟨i, hi⟩ := (all g).1 hg
    exact depths _ hi
  · rintro ⟨compiles, supplied, depths, cts, hcts, rfl⟩
    obtain ⟨plan, hplan⟩ : ∃ plan, c.compile limit e.growth = .ok plan := exists_compile_iff.2 compiles
    obtain ⟨gates, all, flows, plans⟩ := compile_spec hplan
    have mem : ∀ g ∈ gates, g.2 ∈ c.gates := fun g hg => (all g.2).2 ⟨g.1, hg⟩
    obtain ⟨wires, hrun⟩ := exists_run compiles.wired mem (start supplied) (flows.mono supplied.given)
      plans fun g hg => depths g.2 (mem g hg)
    obtain ⟨agrees, -⟩ := run_agrees mem (start supplied) plans hrun
    obtain ⟨result, collected⟩ := exists_collect_iff.2 (outputs_bound_of_run hplan supplied hrun)
    obtain ⟨cts', hcts', -⟩ := collect_eq_ok_iff.1 collected
    have unique : Relator.RightUnique (c.Carries e key bound) :=
      fun _ _ _ => Carries.unique compiles.wired
    have same : cts' = cts := List.right_unique_forall₂' unique (hcts'.imp agrees) hcts
    exact ⟨plan, hplan, supplied, wires, hrun, cts', hcts', by rw [same]⟩

end SealedFields.Circuit
