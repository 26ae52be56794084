import Mathlib.Data.Fintype.Card
import Mathlib.Data.Set.Finite.List
import Mathlib.Logic.Relation
import SealedFields.Proofs.Circuit.Founded

/-!
# Cycles

A circuit has finitely many gates. Following wires back from a gate therefore goes on for ever exactly if
it leads to a cycle, so that well-founded wiring is wiring without cycles.
-/

namespace SealedFields

open Relation

/-! ## 1. Finite relations -/

section
variable {α : Type} {r : α → α → Prop} {a : α}

theorem not_rel_self_of_acc (h : Acc r a) : ¬ r a a := by
  induction h with
  | intro a _ ih => exact fun self => ih a self self

theorem acc_of_reflTransGen {b : α} (h : Acc r a) (path : ReflTransGen r b a) : Acc r b := by
  induction path using ReflTransGen.head_induction_on with
  | refl => exact h
  | head step _ ih => exact ih.inv step

/-- Where finitely many things lead to `a`, a chain of them goes on for ever only round a cycle. -/
theorem acc_iff_not_cycle (finite : {b | ReflTransGen r b a}.Finite) :
    Acc r a ↔ ∀ b, ReflTransGen r b a → ¬ TransGen r b b := by
  constructor
  · intro h b path
    exact not_rel_self_of_acc (acc_of_reflTransGen h path).transGen
  · intro acyclic
    -- What leads to `a`, ordered by the chains between, is a finite order without loops.
    let above := {b // ReflTransGen r b a}
    let before (x y : above) : Prop := TransGen r x.1 y.1
    have : Finite above := finite
    have : IsTrans above before := ⟨fun _ _ _ => TransGen.trans⟩
    have : Std.Irrefl before := ⟨fun x => acyclic x.1 x.2⟩
    have founded : Acc before ⟨a, .refl⟩ := (Finite.wellFounded_of_trans_of_irrefl before).apply _
    have descend (x : above) (h : Acc before x) : Acc r x.1 := by
      induction h with
      | intro x _ ih =>
        constructor
        intro b step
        exact ih ⟨b, .head step x.2⟩ (.single step)
    exact descend _ founded

end

/-! ## 2. Cycles of gates -/

namespace Circuit

variable {c : Circuit} {g : Gate}

/-- Gate `h` reads what gate `g` puts out. -/
def Supplies (c : Circuit) (g h : Gate) : Prop := g ∈ c.gates ∧ h ∈ c.gates ∧ g.output ∈ h.inputs

/-- No gate reads its own output, be it through other gates. -/
def Acyclic (c : Circuit) : Prop := ∀ g, ¬ TransGen c.Supplies g g

/-- The gate lies on a cycle, or depends on a gate that does. -/
def Entangled (c : Circuit) (g : Gate) : Prop :=
  ∃ h, TransGen c.Supplies h h ∧ ReflTransGen c.Supplies h g

theorem finite_suppliers (g : Gate) : {h | ReflTransGen c.Supplies h g}.Finite := by
  have finite : {h | h = g ∨ h ∈ c.gates}.Finite := (List.finite_toSet c.gates).insert g
  refine finite.subset fun h path => ?_
  rcases path.cases_head with rfl | ⟨_, step, _⟩
  · exact .inl rfl
  · exact .inr step.1

theorem acc_supplies_iff : Acc c.Supplies g ↔ ¬ c.Entangled g := by
  rw [acc_iff_not_cycle (finite_suppliers g)]
  constructor
  · rintro h ⟨b, cycle, path⟩
    exact h b path cycle
  · exact fun h b path cycle => h ⟨b, cycle, path⟩

/-- Gates supply each other as wires feed each other. -/
theorem Wired.acc_feeds_iff (wired : c.Wired) (hg : g ∈ c.gates) :
    Acc c.Feeds g.output ↔ Acc c.Supplies g := by
  constructor
  · intro h
    -- The output of a supplier feeds the output of whatever it supplies.
    have gates : Acc (InvImage c.Feeds Gate.output) g := InvImage.accessible Gate.output h
    exact Subrelation.accessible (fun {s t} step => ⟨t, step.2.1, rfl, step.2.2⟩) gates
  · intro h
    induction h with
    | intro g _ ih =>
      refine Acc.intro _ ?_
      rintro w ⟨g', hg', same, hw⟩
      obtain rfl : g' = g := gate_ext wired.unique hg' hg same
      rcases wired.gates_bound g' hg' w hw with input | ⟨source, hs, rfl⟩
      · exact wired.acc_of_input input
      · exact ih source ⟨hs, hg', hw⟩ hs

theorem Wired.entangled_iff (wired : c.Wired) {i : Nat} (hg : c.gates[i]? = some g) :
    c.Entangled g ↔ ¬ Acc (· ∈ c.sources ·) i := by
  rw [wired.acc_sources_iff hg, wired.acc_feeds_iff (List.mem_of_getElem? hg), acc_supplies_iff, not_not]

theorem acyclic_iff : c.Acyclic ↔ ∀ g ∈ c.gates, ¬ c.Entangled g := by
  constructor
  · rintro acyclic g - ⟨h, cycle, -⟩
    exact acyclic h cycle
  · intro free g cycle
    obtain ⟨_, step, -⟩ := TransGen.head'_iff.1 cycle
    exact free g step.1 ⟨g, cycle, .refl⟩

theorem Wired.founded_iff (wired : c.Wired) : c.Founded ↔ c.Acyclic := by
  rw [acyclic_iff]
  refine forall₂_congr fun g hg => ?_
  rw [wired.acc_feeds_iff hg, acc_supplies_iff]

end Circuit

end SealedFields
