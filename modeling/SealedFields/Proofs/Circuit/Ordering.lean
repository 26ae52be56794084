import SealedFields.Proofs.Circuit.Cycles

/-!
# The order of a circuit's gates

If no gate depends on itself, the order of a circuit takes every gate once and after its suppliers, and it
is the least order that does. If some gates do, the refusal names the outputs of those gates and of all
that depend on them.
-/

namespace SealedFields.Circuit

variable {c : Circuit} {indices : List Nat}

/-- The gates' indices, each once, and every gate after those whose outputs it reads. -/
structure Orders (c : Circuit) (indices : List Nat) : Prop where
  perm : indices.Perm (List.range c.gates.length)
  after : ∀ before i rest, indices = before ++ i :: rest → ∀ g, c.gates[i]? = some g →
    ∀ j h, c.gates[j]? = some h → h.output ∈ g.inputs → j ∈ before

/-! ## 1. Orders and schedules -/

theorem Wired.orders_iff (wired : c.Wired) : c.Orders indices ↔
    indices.Perm (List.range c.gates.length) ∧ InOrder c.sources [] indices := by
  rw [inOrder_iff]
  constructor
  · intro orders
    refine ⟨orders.perm, fun before i rest split j hj => .inr ?_⟩
    -- The index is one of a gate, since all indices are.
    have lt : i < c.gates.length := by
      rw [← List.mem_range, ← orders.perm.mem_iff, split]
      simp
    have hg : c.gates[i]? = some c.gates[i] := List.getElem?_eq_getElem lt
    obtain ⟨h, hh, reads⟩ := (mem_sources_iff wired.unique hg).1 hj
    exact orders.after before i rest split _ hg j h hh reads
  · rintro ⟨perm, after⟩
    refine ⟨perm, fun before i rest split g hg j h hh reads => ?_⟩
    have source := (mem_sources_iff wired.unique hg).2 ⟨h, hh, reads⟩
    exact (after before i rest split j source).resolve_left List.not_mem_nil

/-- Nothing is stuck exactly if there are no cycles. -/
theorem Wired.stuck_eq_nil_iff (wired : c.Wired) {stuck : List Nat}
    (scheduled : schedule c.sources c.gates.length (List.range c.gates.length) [] = (indices, stuck)) :
    stuck = [] ↔ c.Acyclic := by
  have result := order_of_wired wired scheduled
  have orderly : (∃ found, c.order = .ok found) ↔ c.Acyclic := by
    rw [exists_order_iff, wired.founded_iff, and_iff_right wired]
  rw [← orderly, result]
  by_cases drained : stuck = []
  · simp [drained]
  · simp [drained]

/-- The stuck gates are those on a cycle and those that depend on one. -/
theorem Wired.mem_stuck_iff_entangled (wired : c.Wired) {stuck : List Nat}
    (scheduled : schedule c.sources c.gates.length (List.range c.gates.length) [] = (indices, stuck))
    {i : Nat} {g : Gate} (hg : c.gates[i]? = some g) : i ∈ stuck ↔ c.Entangled g := by
  have closed : ∀ k ∈ List.range c.gates.length, ∀ j ∈ c.sources k, j ∈ List.range c.gates.length :=
    fun _ _ j hj => List.mem_range.2 (sources_lt hj)
  have lt : i < c.gates.length := (List.getElem?_eq_some_iff.1 hg).1
  rw [mem_stuck_iff (by simp) closed scheduled, wired.entangled_iff hg, List.mem_range]
  exact and_iff_right lt

/-! ## 2. The outputs of stuck gates -/

def outputsOf (c : Circuit) (indices : List Nat) : List Text :=
  indices.filterMap fun i => (c.gates[i]?).map Gate.output

theorem mem_outputsOf {w : Text} :
    w ∈ c.outputsOf indices ↔ ∃ i ∈ indices, ∃ g, c.gates[i]? = some g ∧ g.output = w := by
  simp only [outputsOf, List.mem_filterMap, Option.map_eq_some_iff]

theorem outputsOf_range : c.outputsOf (List.range c.gates.length) = c.gates.map Gate.output := by
  rw [outputsOf, ← List.map_filterMap, filterMap_getElem?_range]

/-- The stuck outputs are listed as the gates are. -/
theorem outputsOf_sublist (h : indices.Sublist (List.range c.gates.length)) :
    (c.outputsOf indices).Sublist (c.gates.map Gate.output) := by
  rw [← outputsOf_range]
  exact h.filterMap _

/-! ## 3. The order -/

/-- If the wiring has no cycle, the order of the gates takes each one after its suppliers and precedes
every other such order at their first difference, so that a list of gates in order keeps its order. If
it has one, exactly the outputs of the gates on cycles and of those that depend on them are reported. -/
theorem least_order_or_cycle (c : Circuit) (wired : c.Wired) :
    (c.Acyclic → ∃ indices, c.order = .ok indices ∧ c.Orders indices ∧
        ∀ other, c.Orders other → indices = other ∨ List.Lex (· < ·) indices other) ∧
      (c.Orders (List.range c.gates.length) → c.order = .ok (List.range c.gates.length)) ∧
      (¬ c.Acyclic → ∃ wires,
        c.order = .error (.circuitDependency "circuit wiring contains a cycle" wires) ∧
        wires.Sublist (c.gates.map Gate.output) ∧
        ∀ w, w ∈ wires ↔ ∃ g ∈ c.gates, g.output = w ∧ c.Entangled g) := by
  obtain ⟨found, stuck, scheduled⟩ : ∃ found stuck,
      schedule c.sources c.gates.length (List.range c.gates.length) [] = (found, stuck) := ⟨_, _, rfl⟩
  have result := order_of_wired wired scheduled
  have drained := wired.stuck_eq_nil_iff scheduled
  refine ⟨fun acyclic => ?least, fun listed => ?kept, fun cyclic => ?cycle⟩
  case least =>
    have none : stuck = [] := drained.2 acyclic
    subst none
    have perm : found.Perm (List.range c.gates.length) := by simpa using schedule_perm scheduled
    refine ⟨found, by rw [result, if_pos rfl], ?_, fun other orders => ?_⟩
    · exact wired.orders_iff.2 ⟨perm, schedule_inOrder scheduled⟩
    · obtain ⟨perm', inOrder⟩ := wired.orders_iff.1 orders
      exact schedule_least List.pairwise_lt_range scheduled perm' inOrder
  case kept =>
    have inOrder := (wired.orders_iff.1 listed).2
    rw [order_of_wired wired (schedule_of_inOrder (by simp) inOrder), if_pos rfl]
  case cycle =>
    refine ⟨c.outputsOf stuck, ?_, ?_, fun w => ?_⟩
    · rw [result, if_neg (fun none => cyclic (drained.1 none)), outputsOf]
    · exact outputsOf_sublist (schedule_stuck_sublist scheduled)
    · rw [mem_outputsOf]
      constructor
      · rintro ⟨i, hi, g, hg, rfl⟩
        have entangled := (wired.mem_stuck_iff_entangled scheduled hg).1 hi
        exact ⟨g, List.mem_of_getElem? hg, rfl, entangled⟩
      · rintro ⟨g, mem, rfl, entangled⟩
        obtain ⟨i, hg⟩ := List.getElem?_of_mem mem
        exact ⟨i, (wired.mem_stuck_iff_entangled scheduled hg).2 entangled, g, hg, rfl⟩

/-- Two gates that read each other, one of them twice, a gate that depends on them, and one that does
not. -/
def knot : Circuit where
  name := "knot"
  inputs := ["a"]
  outputs := ["d", "e"]
  gates := [⟨"add", ["c", "c"], "b", []⟩, ⟨"negate", ["b"], "c", []⟩, ⟨"rotate", ["c"], "d", []⟩,
    ⟨"negate", ["a"], "e", []⟩]
  autoBootstrap := true

/-- The knot and what hangs on it are reported, the gate beside it is not. -/
theorem least_order_or_cycle_knot : knot.Wired ∧ ¬ knot.Acyclic ∧
    ∃ wires, knot.order = .error (.circuitDependency "circuit wiring contains a cycle" wires) ∧
      wires = ["b", "c", "d"] ∧
      ∀ w, w ∈ wires ↔ ∃ g ∈ knot.gates, g.output = w ∧ knot.Entangled g := by
  have wired : knot.Wired := ⟨by decide, by decide, by decide, by decide⟩
  have cyclic : ¬ knot.Acyclic := by
    intro acyclic
    let b : Gate := ⟨"add", ["c", "c"], "b", []⟩
    let c : Gate := ⟨"negate", ["b"], "c", []⟩
    have forth : knot.Supplies b c := ⟨by simp [knot, b], by simp [knot, c], by simp [b, c]⟩
    have back : knot.Supplies c b := ⟨by simp [knot, c], by simp [knot, b], by simp [b, c]⟩
    exact acyclic b (.head forth (.single back))
  obtain ⟨-, -, reported⟩ := least_order_or_cycle knot wired
  obtain ⟨wires, refused, -, members⟩ := reported cyclic
  have named : knot.order = .error (.circuitDependency "circuit wiring contains a cycle"
    ["b", "c", "d"]) := by rfl
  refine ⟨wired, cyclic, wires, refused, ?_, members⟩
  rw [refused] at named
  exact (FieldError.circuitDependency.inj (Except.error.inj named)).2

end SealedFields.Circuit
