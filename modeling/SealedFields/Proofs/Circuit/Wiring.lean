import SealedFields.Proofs.Circuit.Countdown

/-!
# Wiring

What a circuit's wiring has to satisfy before its gates can be put in order: no wire has two origins,
and every wire that is read has one. Everything is said of the gates as a collection, not of their
positions in the list.
-/

namespace SealedFields.Circuit

variable {c : Circuit}

/-- The wire has an origin: it is a circuit input or some gate's output. -/
def Bound (c : Circuit) (wire : Text) : Prop := wire ∈ c.inputs ∨ ∃ g ∈ c.gates, g.output = wire

instance : DecidablePred c.Bound := fun wire =>
  inferInstanceAs (Decidable (wire ∈ c.inputs ∨ ∃ g ∈ c.gates, g.output = wire))

/-- No wire has two origins, and every wire that a gate or the circuit's answer reads has one. -/
structure Wired (c : Circuit) : Prop where
  fresh : ∀ g ∈ c.gates, g.output ∉ c.inputs
  unique : (c.gates.map Gate.output).Nodup
  gates_bound : ∀ g ∈ c.gates, ∀ w ∈ g.inputs, c.Bound w
  outputs_bound : ∀ w ∈ c.outputs, c.Bound w

/-! ## 1. Origins -/

theorem rebound?_eq_none_iff {bound : List Text} {gates : List Gate} :
    rebound? bound gates = none ↔
      (∀ g ∈ gates, g.output ∉ bound) ∧ (gates.map Gate.output).Nodup := by
  induction gates generalizing bound with
  | nil => simp [rebound?]
  | cons g gates ih =>
    rw [rebound?, List.map_cons, List.nodup_cons]
    -- The head is checked against what is bound, and the tail with the head's output bound too.
    by_cases h : g.output ∈ bound
    · simp [h]
    · rw [if_neg (by simpa using h), ih]
      simp only [List.mem_cons, not_or, List.mem_map, not_exists, not_and]
      constructor
      · rintro ⟨away, nodup⟩
        refine ⟨?_, fun g' hg' => (away g' hg').1, nodup⟩
        rintro g' (rfl | hg')
        · exact h
        · exact (away g' hg').2
      · rintro ⟨away, distinct, nodup⟩
        exact ⟨fun g' hg' => ⟨distinct g' hg', away g' (.inr hg')⟩, nodup⟩

theorem producer?_isSome_iff {w : Text} :
    (c.producer? w).isSome ↔ ∃ g ∈ c.gates, g.output = w := by
  simp [producer?, List.findIdx?_isSome]

theorem binds_iff {w : Text} : c.binds w = true ↔ c.Bound w := by
  rw [binds, Bool.or_eq_true, producer?_isSome_iff, List.contains_iff_mem, Bound]

theorem producer?_eq_some_iff (unique : (c.gates.map Gate.output).Nodup) {w : Text} {i : Nat} :
    c.producer? w = some i ↔ ∃ g, c.gates[i]? = some g ∧ g.output = w := by
  constructor
  · intro h
    obtain ⟨hi, hw, -⟩ := List.findIdx?_eq_some_iff_getElem.1 h
    exact ⟨c.gates[i], List.getElem?_eq_getElem hi, by simpa using hw⟩
  · rintro ⟨g, hg, rfl⟩
    obtain ⟨hi, rfl⟩ := List.getElem?_eq_some_iff.1 hg
    apply List.findIdx?_eq_some_iff_getElem.2
    refine ⟨hi, by simp, fun j hj => ?_⟩
    -- The first gate with this output is the only one.
    have distinct := (List.nodup_iff_injective_get.1 unique)
    intro same
    have hlen : (c.gates.map Gate.output).length = c.gates.length := List.length_map _
    have eq : (⟨j, by omega⟩ : Fin (c.gates.map Gate.output).length) = ⟨i, by omega⟩ := by
      apply distinct
      simpa using same
    have : j = i := Fin.mk.inj eq
    omega

theorem gate_ext (unique : (c.gates.map Gate.output).Nodup) {g g' : Gate} (hg : g ∈ c.gates)
    (hg' : g' ∈ c.gates) (same : g.output = g'.output) : g = g' :=
  List.inj_on_of_nodup_map unique hg hg' same

/-- The indices of a list lead to its items, in their order. -/
theorem filterMap_getElem?_range {α : Type} (l : List α) :
    (List.range l.length).filterMap (fun i => l[i]?) = l := by
  induction l with
  | nil => rfl
  | cons a l ih =>
    rw [List.length_cons, List.range_succ_eq_map, List.filterMap_cons, List.filterMap_map]
    simpa [Function.comp_def] using ih

/-! ## 2. The guards -/

theorem unboundInputs_isEmpty_iff :
    c.unboundInputs.isEmpty = true ↔ ∀ g ∈ c.gates, ∀ w ∈ g.inputs, c.Bound w := by
  -- Repeated wires are listed once, which does not matter to whether there are any.
  have empty : c.unboundInputs = [] ↔ ∀ w ∈ c.gates.flatMap Gate.inputs, c.binds w = true := by
    constructor
    · intro h w hw
      by_contra hb
      have mem : w ∈ c.unboundInputs := by
        rw [unboundInputs, List.mem_eraseDups, List.mem_filter]
        exact ⟨hw, by simpa using hb⟩
      rw [h] at mem
      exact List.not_mem_nil mem
    · intro h
      apply List.eq_nil_iff_forall_not_mem.2
      intro w mem
      rw [unboundInputs, List.mem_eraseDups, List.mem_filter] at mem
      have := h w mem.1
      simp [this] at mem
  rw [List.isEmpty_iff, empty]
  simp only [List.mem_flatMap, binds_iff]
  constructor
  · exact fun h g hg w hw => h w ⟨g, hg, hw⟩
  · rintro h w ⟨g, hg, hw⟩
    exact h g hg w hw

theorem unboundOutputs_isEmpty_iff :
    c.unboundOutputs.isEmpty = true ↔ ∀ w ∈ c.outputs, c.Bound w := by
  simp [unboundOutputs, List.isEmpty_iff, binds_iff]

theorem wired_of_order {indices : List Nat} (h : c.order = .ok indices) : c.Wired := by
  -- The guards come one after the other, and each that is passed is a part of the wiring.
  unfold order at h
  split at h
  case h_1 => cases h
  case h_2 none =>
    obtain ⟨fresh, unique⟩ := rebound?_eq_none_iff.1 none
    split at h
    case isTrue => cases h
    case isFalse inputs =>
      split at h
      case isTrue => cases h
      case isFalse outputs =>
        have gates_bound := unboundInputs_isEmpty_iff.1 (by simpa using inputs)
        have outputs_bound := unboundOutputs_isEmpty_iff.1 (by simpa using outputs)
        exact ⟨fresh, unique, gates_bound, outputs_bound⟩

/-- Once the wiring is in order, the answer is what is scheduled, or the outputs of what is stuck. -/
theorem order_of_wired (wired : c.Wired) {indices stuck : List Nat}
    (h : schedule c.sources c.gates.length (List.range c.gates.length) [] = (indices, stuck)) :
    c.order = if stuck = [] then .ok indices else .error (.circuitDependency
      "circuit wiring contains a cycle" (stuck.filterMap fun i => (c.gates[i]?).map Gate.output)) := by
  have inputs := unboundInputs_isEmpty_iff.2 wired.gates_bound
  have outputs := unboundOutputs_isEmpty_iff.2 wired.outputs_bound
  unfold order
  rw [rebound?_eq_none_iff.2 ⟨wired.fresh, wired.unique⟩]
  simp only [inputs, outputs, Bool.not_true, Bool.false_eq_true, if_false, Countdown.drain_start, h]
  -- All gates are in the order exactly if none of them is stuck.
  have all := (schedule_perm h).length_eq
  rw [List.length_append, List.length_range] at all
  have drained : indices.length = c.gates.length ↔ stuck = [] := by
    rw [← List.length_eq_zero_iff]
    omega
  simp only [drained]

/-- The order is what is scheduled, if the wiring is in order and nothing is stuck. -/
theorem order_eq_ok_iff {indices : List Nat} :
    c.order = .ok indices ↔ c.Wired ∧
      schedule c.sources c.gates.length (List.range c.gates.length) [] = (indices, []) := by
  obtain ⟨found, stuck, scheduled⟩ : ∃ found stuck,
      schedule c.sources c.gates.length (List.range c.gates.length) [] = (found, stuck) := ⟨_, _, rfl⟩
  constructor
  · intro h
    have wired := wired_of_order h
    refine ⟨wired, ?_⟩
    rw [order_of_wired wired scheduled] at h
    split at h
    case isTrue none =>
      rw [scheduled, none, Except.ok.inj h]
    case isFalse => cases h
  · rintro ⟨wired, h⟩
    rw [order_of_wired wired h, if_pos rfl]

/-! ## 3. Sources -/

theorem mem_sources_iff (unique : (c.gates.map Gate.output).Nodup) {i j : Nat} {g : Gate}
    (hg : c.gates[i]? = some g) :
    j ∈ c.sources i ↔ ∃ g', c.gates[j]? = some g' ∧ g'.output ∈ g.inputs := by
  simp only [sources, hg, List.mem_filterMap, producer?_eq_some_iff unique]
  constructor
  · rintro ⟨w, hw, g', hg', rfl⟩
    exact ⟨g', hg', hw⟩
  · rintro ⟨g', hg', hw⟩
    exact ⟨g'.output, hw, g', hg', rfl⟩

end SealedFields.Circuit
