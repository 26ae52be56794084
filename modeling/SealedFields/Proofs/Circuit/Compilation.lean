import Mathlib.Order.Bounds.Basic
import SealedFields.Circuit.Plan
import SealedFields.Proofs.Circuit.Denotation

/-!
# Which circuits compile

A circuit compiles exactly if its gates are operations with the right number of inputs, the wiring is in
order and well founded, amounts to rotate by are integers, and no wire is deeper than the limit. The
planned operations are the gates, each one after the gates it reads from.
-/

namespace SealedFields

/-- The planned operation is the gate, at its index. -/
structure PlannedOperation.Plans (op : PlannedOperation) (index : Nat) (g : Gate) : Prop where
  index : op.index = index
  operation : g.operation? = some op.operation
  inputs : op.inputs = g.inputs
  output : op.output = g.output
  amount : (if op.operation = .rotate then g.rotationAmount else .ok 1) = .ok op.rotationAmount
  autoBootstrap : op.autoBootstrap = g.autoBootstrap

namespace Circuit

variable {c : Circuit} {limit : Int} {growth : GrowthFactors Float}

/-! ## 1. Depth -/

/-- The depth of a gate's result from those of its inputs: a product is one deeper. -/
def GateDepth (g : Gate) (ds : List Nat) (d : Nat) : Prop :=
  ∃ op, g.operation? = some op ∧ d = ds.foldl max 0 + if op = .multiply then 1 else 0

/-- The multiplicative depth of a wire; inputs have none. -/
def HasDepth (c : Circuit) : Text → Nat → Prop := c.Denotes (fun _ d => d = 0) GateDepth

theorem GateDepth.unique {g : Gate} {ds : List Nat} {d d' : Nat} (h : GateDepth g ds d)
    (h' : GateDepth g ds d') : d = d' := by
  obtain ⟨op, hop, rfl⟩ := h
  obtain ⟨op', hop', rfl⟩ := h'
  rw [hop] at hop'
  cases hop'
  rfl

theorem HasDepth.unique (wired : c.Wired) {w : Text} {d d' : Nat} (h : c.HasDepth w d)
    (h' : c.HasDepth w d') : d = d' := by
  refine Denotes.unique wired ?_ ?_ h h'
  · intro w a b ha hb
    exact ha.trans hb.symm
  · exact fun g ds a b => GateDepth.unique

theorem gateDepth?_eq_some_iff {depths : List (Text × Nat)} {op : Operation} {inputs : List Text}
    {d : Nat} :
    gateDepth? depths op inputs = some d ↔ ∃ ds, inputs.mapM (Entries.get? depths) = some ds ∧
      d = ds.foldl max 0 + if op = .multiply then 1 else 0 := by
  rw [gateDepth?, Option.map_eq_some_iff]
  simp only [eq_comm]

/-- Folding with `max` gives the greatest of the items and the value at the start. -/
theorem isGreatest_foldl_max (m : Nat) (ds : List Nat) :
    IsGreatest {d | d ∈ m :: ds} (ds.foldl max m) := by
  induction ds generalizing m with
  | nil => simp [IsGreatest]
  | cons d ds ih =>
    rw [List.foldl_cons]
    obtain ⟨attained, above⟩ := ih (max m d)
    have start : max m d ≤ ds.foldl max (max m d) := above List.mem_cons_self
    constructor
    · rcases List.mem_cons.1 attained with first | later
      · rw [first]
        rcases Nat.le_total m d with le | le
        · simp [Nat.max_eq_right le]
        · simp [Nat.max_eq_left le]
      · exact List.mem_cons_of_mem _ (List.mem_cons_of_mem _ later)
    · intro k hk
      rcases List.mem_cons.1 hk with rfl | hk
      · omega
      · rcases List.mem_cons.1 hk with rfl | hk
        · omega
        · exact above (List.mem_cons_of_mem _ hk)

theorem planDepth_eq (ops : List PlannedOperation) :
    planDepth ops = (ops.map PlannedOperation.depth).foldl max 0 := by
  rw [planDepth, List.foldl_map]

/-- The plan's depth is within the limit if no operation is deeper. -/
theorem planDepth_le_iff {ops : List PlannedOperation} :
    (planDepth ops : Int) ≤ limit ↔ 0 ≤ limit ∧ ∀ op ∈ ops, (op.depth : Int) ≤ limit := by
  obtain ⟨attained, above⟩ := isGreatest_foldl_max 0 (ops.map PlannedOperation.depth)
  rw [← planDepth_eq] at attained above
  constructor
  · intro h
    refine ⟨by omega, fun op hop => ?_⟩
    have le : op.depth ≤ planDepth ops := above (List.mem_cons_of_mem _ (List.mem_map_of_mem hop))
    omega
  · rintro ⟨nonneg, each⟩
    rcases List.mem_cons.1 attained with zero | deep
    · omega
    · obtain ⟨op, hop, same⟩ := List.mem_map.1 deep
      rw [← same]
      exact each op hop

/-! ## 2. Planning gates -/

theorem checkGate_eq_ok_iff {g : Gate} :
    checkGate g = .ok () ↔ ∃ op, g.operation? = some op ∧ op.accepts g.inputs.length = true := by
  unfold checkGate
  split
  case h_1 none => simp [none]
  case h_2 op some =>
    rw [some]
    by_cases h : op.accepts g.inputs.length = true
    · simp [h]
    · simp [h]

theorem planGate_eq {depths : List (Text × Nat)} {index d : Nat} {g : Gate} {o : Operation}
    (hop : g.operation? = some o) (hd : gateDepth? depths o g.inputs = some d) :
    planGate depths index g =
      ((if o = .rotate then g.rotationAmount else .ok 1).mapError Failure.field).map
        fun n => ⟨index, o, g.inputs, g.output, d, n, g.autoBootstrap⟩ := by
  unfold planGate
  simp only [hop, hd]
  split
  case isTrue => cases g.rotationAmount <;> rfl
  case isFalse => rfl

theorem planGate_eq_ok_iff {depths : List (Text × Nat)} {index : Nat} {g : Gate}
    {op : PlannedOperation} :
    planGate depths index g = .ok op ↔
      op.Plans index g ∧ gateDepth? depths op.operation g.inputs = some op.depth := by
  constructor
  · intro h
    cases hop : g.operation? with
    | none => simp [planGate, hop] at h
    | some o =>
      cases hd : gateDepth? depths o g.inputs with
      | none => simp [planGate, hop, hd] at h
      | some d =>
        rw [planGate_eq hop hd, Outcome.map_eq_ok_iff] at h
        obtain ⟨n, hn, rfl⟩ := h
        exact ⟨⟨rfl, hop, rfl, rfl, Outcome.mapError_eq_ok_iff.1 hn, rfl⟩, hd⟩
  · rintro ⟨h, hd⟩
    rw [planGate_eq h.operation hd, h.amount]
    obtain ⟨index', operation, inputs, output, depth, n, flag⟩ := op
    obtain ⟨rfl, -, rfl, rfl, -, rfl⟩ := h
    rfl

/-- The amount by which a gate rotates, if it does, is an integer. -/
def AmountKnown (g : Gate) : Prop := g.operation? = some .rotate → ∃ n, g.rotationAmount = .ok n

/-- Gates that read only known wires are planned, each with its depth, unless an amount is no integer. -/
theorem exists_planGates_iff {depths : List (Text × Nat)} {gates : List (Nat × Gate)}
    (flows : Flows (fun w => ∃ d, Entries.get? depths w = some d) gates)
    (known : ∀ e ∈ gates, ∃ op, e.2.operation? = some op) :
    (∃ ops, planGates depths gates = .ok ops) ↔ ∀ e ∈ gates, AmountKnown e.2 := by
  -- Induction on the gates in their order, with the depths known so far.
  induction gates generalizing depths with
  | nil => simp [planGates]
  | cons e rest ih =>
    obtain ⟨index, g⟩ := e
    rw [List.forall_mem_cons] at known ⊢
    obtain ⟨⟨o, ho⟩, known⟩ := known
    obtain ⟨ds, hds⟩ := Outcome.exists_mapM_eq_some flows.1
    have hdepth : gateDepth? depths o g.inputs
        = some (ds.foldl max 0 + if o = .multiply then 1 else 0) :=
      gateDepth?_eq_some_iff.2 ⟨ds, hds, rfl⟩
    -- The rest is planned with the depth of this gate's output known too.
    have later (d : Nat) : (∃ ops, planGates (Entries.put g.output d depths) rest = .ok ops) ↔
        ∀ e ∈ rest, AmountKnown e.2 := ih (flows.2.put d) known
    constructor
    · rintro ⟨ops, h⟩
      obtain ⟨op, hop, h⟩ := Outcome.bind_eq_ok_iff.1 h
      obtain ⟨ops', hops, -⟩ := Outcome.bind_eq_ok_iff.1 h
      obtain ⟨plans, -⟩ := planGate_eq_ok_iff.1 hop
      refine ⟨fun hrot => ?_, (later op.depth).1 ⟨ops', plans.output ▸ hops⟩⟩
      have hamount := plans.amount
      rw [if_pos (Option.some.inj (plans.operation.symm.trans hrot))] at hamount
      exact ⟨_, hamount⟩
    · rintro ⟨amount, amounts⟩
      obtain ⟨n, hn⟩ : ∃ n, (if o = .rotate then g.rotationAmount else .ok 1) = .ok n := by
        split
        case isTrue hrot => exact amount (hrot ▸ ho)
        case isFalse => exact ⟨1, rfl⟩
      let op : PlannedOperation := ⟨index, o, g.inputs, g.output,
        ds.foldl max 0 + if o = .multiply then 1 else 0, n, g.autoBootstrap⟩
      have hop : planGate depths index g = .ok op :=
        planGate_eq_ok_iff.2 ⟨⟨rfl, ho, rfl, rfl, hn, rfl⟩, hdepth⟩
      obtain ⟨ops, hops⟩ := (later op.depth).2 amounts
      exact ⟨op :: ops, Outcome.bind_eq_ok_iff.2 ⟨op, hop, Outcome.bind_eq_ok_iff.2 ⟨ops, hops, rfl⟩⟩⟩

/-- The planned operations are the gates, each with its depth. -/
theorem planGates_spec {depths : List (Text × Nat)} {gates : List (Nat × Gate)}
    {ops : List PlannedOperation} (agrees : c.Agrees (fun _ d => d = 0) GateDepth depths)
    (known : ∀ e ∈ gates, e.2 ∈ c.gates) (h : planGates depths gates = .ok ops) :
    List.Forall₂ (fun e op => op.Plans e.1 e.2 ∧ c.HasDepth e.2.output op.depth) gates ops := by
  induction gates generalizing depths ops with
  | nil =>
    cases h
    exact .nil
  | cons e rest ih =>
    obtain ⟨index, g⟩ := e
    rw [List.forall_mem_cons] at known
    obtain ⟨op, hop, h⟩ := Outcome.bind_eq_ok_iff.1 h
    obtain ⟨ops', hops, hcons⟩ := Outcome.bind_eq_ok_iff.1 h
    obtain rfl := Except.ok.inj hcons
    obtain ⟨plans, depth⟩ := planGate_eq_ok_iff.1 hop
    obtain ⟨ds, hds, hd⟩ := gateDepth?_eq_some_iff.1 depth
    -- The depth that is written is the gate's, so that later gates read right depths.
    have agrees' : c.Agrees (fun _ d => d = 0) GateDepth (Entries.put g.output op.depth depths) :=
      agrees.put known.1 hds ⟨op.operation, plans.operation, hd⟩
    have here : c.HasDepth g.output op.depth := by
      apply agrees' g.output
      rw [Entries.get?_put_self]
    rw [← plans.output] at agrees'
    exact .cons ⟨plans, here⟩ (ih agrees' known.2 hops)

/-! ## 3. Compiling -/

structure Compiles (c : Circuit) (limit : Int) : Prop where
  operations : ∀ g ∈ c.gates, ∃ op, g.operation? = some op ∧ op.accepts g.inputs.length = true
  wired : c.Wired
  founded : c.Founded
  amounts : ∀ g ∈ c.gates, AmountKnown g
  nonneg : 0 ≤ limit
  depths : ∀ g ∈ c.gates, ∃ d, c.HasDepth g.output d ∧ (d : Int) ≤ limit

theorem compile_eq_ok_iff {plan : Plan} :
    c.compile limit growth = .ok plan ↔ (∀ g ∈ c.gates, checkGate g = .ok ()) ∧
      ∃ indices ops, c.order = .ok indices ∧
        planGates (c.inputs.map (·, 0)) (c.arranged indices) = .ok ops ∧
        (planDepth ops : Int) ≤ limit ∧
        plan = ⟨ops, c.inputs.length, c.outputs.length, planDepth ops, noiseGrowth growth ops⟩ := by
  unfold compile
  simp only [Outcome.bind_eq_ok_iff, Outcome.mapError_eq_ok_iff]
  constructor
  · rintro ⟨⟨⟩, checked, indices, hindices, ops, hops, h⟩
    refine ⟨Outcome.forM_eq_ok_iff.1 checked, indices, ops, hindices, hops, ?_⟩
    split at h
    case isTrue => cases h
    case isFalse shallow => exact ⟨by omega, (Except.ok.inj h).symm⟩
  · rintro ⟨checked, indices, ops, hindices, hops, shallow, rfl⟩
    refine ⟨(), Outcome.forM_eq_ok_iff.2 checked, indices, hindices, ops, hops, ?_⟩
    rw [if_neg (by omega)]
    rfl

/-- At the start every input has depth zero, and nothing else is known. -/
theorem agrees_inputs : c.Agrees (fun _ d => d = 0) GateDepth (c.inputs.map (·, 0)) := by
  intro w d h
  obtain ⟨v, hv, heq⟩ := List.mem_map.1 (Entries.mem_of_get? h)
  cases heq
  exact .input hv rfl

theorem exists_get?_inputs {w : Text} (h : w ∈ c.inputs) :
    ∃ d, Entries.get? (c.inputs.map (·, 0)) w = some d := by
  rw [← Entries.mem_keys_iff, List.map_map]
  simpa using h

/-- The gates in a certain order are planned, each with its depth. -/
theorem arranged_spec {indices : List Nat} {ops : List PlannedOperation}
    (h : planGates (c.inputs.map (·, 0)) (c.arranged indices) = .ok ops) :
    List.Forall₂ (fun e op => op.Plans e.1 e.2 ∧ c.HasDepth e.2.output op.depth) (c.arranged indices) ops :=
  planGates_spec agrees_inputs (fun _ => mem_gates_of_arranged) h

/-- The gates in the order of the plan's operations. -/
structure PlannedAs (c : Circuit) (gates : List (Nat × Gate)) (ops : List PlannedOperation) : Prop where
  all : ∀ g, g ∈ c.gates ↔ ∃ i, (i, g) ∈ gates
  flows : Flows (· ∈ c.inputs) gates
  plans : List.Forall₂ (fun e op => op.Plans e.1 e.2) gates ops

theorem compile_spec {plan : Plan} (h : c.compile limit growth = .ok plan) :
    ∃ gates, c.PlannedAs gates plan.operations := by
  obtain ⟨-, indices, ops, hindices, hops, -, rfl⟩ := compile_eq_ok_iff.1 h
  obtain ⟨all, flows⟩ := order_spec hindices
  exact ⟨_, all, flows, (arranged_spec hops).imp fun _ _ => And.left⟩

/-- Every planned operation is some gate, planned with the depth of its output. -/
theorem planned_spec {plan : Plan} (h : c.compile limit growth = .ok plan) : ∀ op ∈ plan.operations,
    (op.depth : Int) ≤ limit ∧ c.HasDepth op.output op.depth ∧ ∃ i, ∃ g ∈ c.gates, op.Plans i g := by
  obtain ⟨-, indices, ops, hindices, hops, shallow, rfl⟩ := compile_eq_ok_iff.1 h
  intro op hop
  obtain ⟨g, hg, plans, depth⟩ := Outcome.exists_of_mem_right (arranged_spec hops) hop
  refine ⟨(planDepth_le_iff.1 shallow).2 op hop, ?_, g.1, g.2, mem_gates_of_arranged hg, plans⟩
  rw [plans.output]
  exact depth

/-- The planned outputs are those of the gates. -/
theorem compile_outputs {plan : Plan} (h : c.compile limit growth = .ok plan) :
    (plan.operations.map (·.output)).Perm (c.gates.map Gate.output) := by
  obtain ⟨-, indices, ops, hindices, hops, -, rfl⟩ := compile_eq_ok_iff.1 h
  have same : (c.arranged indices).map (·.2.output) = ops.map (·.output) := by
    rw [← List.forall₂_eq_eq_eq, List.forall₂_map_left_iff, List.forall₂_map_right_iff]
    exact (arranged_spec hops).imp fun _ _ planned => planned.1.output.symm
  rw [← same]
  simpa [List.map_map, Function.comp_def] using (order_perm hindices).map Gate.output

theorem exists_compile_iff : (∃ plan, c.compile limit growth = .ok plan) ↔ c.Compiles limit := by
  constructor
  · rintro ⟨plan, h⟩
    -- Compiling checks gates, orders them, plans them and compares the depth with the limit.
    obtain ⟨checked, indices, ops, hindices, hops, shallow, -⟩ := compile_eq_ok_iff.1 h
    obtain ⟨all, flows⟩ := order_spec hindices
    obtain ⟨wired, founded⟩ := exists_order_iff.1 ⟨indices, hindices⟩
    have operations := fun g hg => checkGate_eq_ok_iff.1 (checked g hg)
    have amounts := (exists_planGates_iff (flows.mono fun _ => exists_get?_inputs)
      fun e he => (operations e.2 (mem_gates_of_arranged he)).imp fun _ => And.left).1 ⟨ops, hops⟩
    have spec := arranged_spec hops
    obtain ⟨nonneg, shallow⟩ := planDepth_le_iff.1 shallow
    refine ⟨operations, wired, founded, fun g hg => ?_, nonneg, fun g hg => ?_⟩
    · obtain ⟨i, hi⟩ := (all g).1 hg
      exact amounts _ hi
    · obtain ⟨i, hi⟩ := (all g).1 hg
      obtain ⟨op, hop, -, depth⟩ := Outcome.exists_of_mem_left spec hi
      exact ⟨op.depth, depth, shallow op hop⟩
  · intro h
    obtain ⟨indices, hindices⟩ := exists_order_iff.2 ⟨h.wired, h.founded⟩
    obtain ⟨-, flows⟩ := order_spec hindices
    obtain ⟨ops, hops⟩ := (exists_planGates_iff (flows.mono fun _ => exists_get?_inputs)
      fun e he => (h.operations e.2 (mem_gates_of_arranged he)).imp fun _ => And.left).2
        fun e he => h.amounts e.2 (mem_gates_of_arranged he)
    have spec := arranged_spec hops
    refine ⟨_, compile_eq_ok_iff.2 ⟨fun g hg => checkGate_eq_ok_iff.2 (h.operations g hg), indices, ops,
      hindices, hops, planDepth_le_iff.2 ⟨h.nonneg, fun op hop => ?_⟩, rfl⟩⟩
    obtain ⟨e, he, -, depth⟩ := Outcome.exists_of_mem_right spec hop
    obtain ⟨d, hd, le⟩ := h.depths e.2 (mem_gates_of_arranged he)
    rw [HasDepth.unique h.wired depth hd]
    exact le

end Circuit

end SealedFields
