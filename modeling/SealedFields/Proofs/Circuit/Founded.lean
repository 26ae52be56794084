import SealedFields.Proofs.Circuit.Wiring

/-!
# Well-founded wiring

A circuit's gates can be put in order exactly if the wiring is in order and no wire depends on itself,
however far the wires are followed back.
-/

namespace SealedFields.Circuit

variable {c : Circuit}

/-! ## 1. Wires that feed wires -/

/-- Wire `w` is read by a gate that puts out `v`. -/
def Feeds (c : Circuit) (w v : Text) : Prop := ∃ g ∈ c.gates, g.output = v ∧ w ∈ g.inputs

/-- No gate's output depends on itself, however far one follows the wires back. -/
def Founded (c : Circuit) : Prop := ∀ g ∈ c.gates, Acc c.Feeds g.output

theorem sources_lt {i j : Nat} (h : j ∈ c.sources i) : j < c.gates.length := by
  unfold sources at h
  split at h
  case h_1 g _ =>
    obtain ⟨w, -, hw⟩ := List.mem_filterMap.1 h
    exact (List.findIdx?_eq_some_iff_getElem.1 hw).1
  case h_2 => exact absurd h List.not_mem_nil

/-- Nothing feeds an input. -/
theorem Wired.acc_of_input (wired : c.Wired) {w : Text} (input : w ∈ c.inputs) : Acc c.Feeds w := by
  refine Acc.intro w ?_
  rintro v ⟨g, hg, rfl, -⟩
  exact absurd input (wired.fresh g hg)

theorem Wired.acc_sources_iff (wired : c.Wired) {i : Nat} {g : Gate} (hg : c.gates[i]? = some g) :
    Acc (· ∈ c.sources ·) i ↔ Acc c.Feeds g.output := by
  constructor
  · intro h
    induction h generalizing g with
    | intro i _ ih =>
      -- A wire that the gate reads is an input, on which nothing feeds, or the output of a source.
      refine Acc.intro _ ?_
      rintro w ⟨g', hg', same, hw⟩
      obtain rfl : g' = g := gate_ext wired.unique hg' (List.mem_of_getElem? hg) same
      rcases wired.gates_bound g' hg' w hw with input | ⟨source, hs, rfl⟩
      · exact wired.acc_of_input input
      · obtain ⟨j, hj⟩ := List.getElem?_of_mem hs
        exact ih j ((mem_sources_iff wired.unique hg).2 ⟨source, hj, hw⟩) hj
  · intro h
    -- The induction is on the output wire, which has to be a variable for it.
    generalize hv : g.output = v at h
    induction h generalizing g i with
    | intro v _ ih =>
      refine Acc.intro i fun j hj => ?_
      obtain ⟨source, hs, hw⟩ := (mem_sources_iff wired.unique hg).1 hj
      exact ih source.output ⟨g, List.mem_of_getElem? hg, hv, hw⟩ hs rfl

/-- Which circuits have an order, whatever the order of their lists. -/
theorem exists_order_iff : (∃ indices, c.order = .ok indices) ↔ c.Wired ∧ c.Founded := by
  -- Sources are gates of the circuit: the schedule is closed under needs.
  have range : ∀ i ∈ List.range c.gates.length, ∀ j ∈ c.sources i, j ∈ List.range c.gates.length :=
    fun i _ j hj => List.mem_range.2 (sources_lt hj)
  have founded_iff : c.Wired →
      ((∀ i ∈ List.range c.gates.length, Acc (· ∈ c.sources ·) i) ↔ c.Founded) := by
    intro wired
    constructor
    · intro h g hg
      obtain ⟨i, hi⟩ := List.getElem?_of_mem hg
      have lt := (List.getElem?_eq_some_iff.1 hi).1
      exact (wired.acc_sources_iff hi).1 (h i (List.mem_range.2 lt))
    · intro h i hi
      have hg := List.getElem?_eq_getElem (List.mem_range.1 hi)
      exact (wired.acc_sources_iff hg).2 (h _ (List.getElem_mem _))
  obtain ⟨order, stuck, heq⟩ : ∃ order stuck,
      schedule c.sources c.gates.length (List.range c.gates.length) [] = (order, stuck) := ⟨_, _, rfl⟩
  have drains := schedule_drains_iff (by simp) range heq
  constructor
  · rintro ⟨indices, h⟩
    obtain ⟨wired, hs⟩ := order_eq_ok_iff.1 h
    rw [heq] at hs
    exact ⟨wired, (founded_iff wired).1 (drains.1 (Prod.mk.inj hs).2)⟩
  · rintro ⟨wired, founded⟩
    refine ⟨order, order_eq_ok_iff.2 ⟨wired, ?_⟩⟩
    rw [heq, drains.2 ((founded_iff wired).2 founded)]

end SealedFields.Circuit
