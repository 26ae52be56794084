import SealedFields.Proofs.Circuit.Founded
import SealedFields.Proofs.Entries
import SealedFields.Proofs.Outcome

/-!
# What wires stand for

A wire stands for what it is given, if it is a circuit input, and otherwise for what its gate makes of
the gate's inputs. Depths and ciphertexts are both read this way. Compiling and running a circuit keep
a map from wires to such values, gate by gate; these are the laws that both share.
-/

namespace SealedFields.Circuit

variable {α : Type} {c : Circuit} {init : Text → α → Prop} {eval : Gate → List α → α → Prop}

/-- The wire's value, read recursively off the gate that puts the wire out. -/
inductive Denotes (c : Circuit) (init : Text → α → Prop) (eval : Gate → List α → α → Prop) :
    Text → α → Prop
  | input {w : Text} {a : α} (declared : w ∈ c.inputs) (given : init w a) : Denotes c init eval w a
  | gate {g : Gate} {as : List α} {a : α} (mem : g ∈ c.gates) (length : g.inputs.length = as.length)
      (inputs : ∀ v b, (v, b) ∈ g.inputs.zip as → Denotes c init eval v b) (result : eval g as a) :
      Denotes c init eval g.output a

/-! ## 1. The values themselves -/

/-- Only which inputs and gates there are matters, not how they are listed. -/
theorem Denotes.mono {c' : Circuit} (inputs : ∀ w ∈ c.inputs, w ∈ c'.inputs)
    (gates : ∀ g ∈ c.gates, g ∈ c'.gates) {w : Text} {a : α} (h : c.Denotes init eval w a) :
    c'.Denotes init eval w a := by
  induction h with
  | input declared given => exact .input (inputs _ declared) given
  | gate mem length _ result ih => exact .gate (gates _ mem) length ih result

/-- A wire stands for one value if inputs and gates do. -/
theorem Denotes.unique (wired : c.Wired) (init_unique : ∀ w a b, init w a → init w b → a = b)
    (eval_unique : ∀ g as a b, eval g as a → eval g as b → a = b) {w : Text} {a b : α}
    (ha : c.Denotes init eval w a) (hb : c.Denotes init eval w b) : a = b := by
  -- Induction on how the first value was read off; the second one must have been read off the same gate.
  induction ha generalizing b with
  | @input w a declared given =>
    cases hb with
    | input _ given' => exact init_unique w a b given given'
    | gate mem _ _ _ => exact absurd declared (wired.fresh _ mem)
  | @gate g as a mem length _ result ih =>
    generalize hw : g.output = w at hb
    cases hb with
    | input declared _ => exact absurd (hw ▸ declared) (wired.fresh g mem)
    | @gate g' bs _ mem' length' inputs' result' =>
      obtain rfl : g = g' := gate_ext wired.unique mem mem' hw
      -- The inputs' values agree one by one, by the induction hypothesis.
      have same : as = bs := by
        apply List.ext_getElem (by omega)
        intro i hi hi'
        have hz : i < (g.inputs.zip as).length := by rw [List.length_zip]; omega
        have hz' : i < (g.inputs.zip bs).length := by rw [List.length_zip]; omega
        apply ih g.inputs[i] as[i]
        · rw [← List.getElem_zip (h := hz)]
          exact List.getElem_mem hz
        · apply inputs'
          rw [← List.getElem_zip (h := hz')]
          exact List.getElem_mem hz'
      exact eval_unique g as a b result (same ▸ result')

theorem Denotes.eval_of_inputs (wired : c.Wired) (init_unique : ∀ w a b, init w a → init w b → a = b)
    (eval_unique : ∀ g as a b, eval g as a → eval g as b → a = b) {g : Gate} {as : List α} {a : α}
    (mem : g ∈ c.gates) (h : c.Denotes init eval g.output a)
    (inputs : List.Forall₂ (c.Denotes init eval) g.inputs as) : eval g as a := by
  -- Cases on the reading need the wire as a variable; no other gate has this output.
  generalize hw : g.output = w at h
  cases h with
  | input declared _ => exact absurd (hw ▸ declared) (wired.fresh g mem)
  | @gate g' bs _ mem' length' inputs' result' =>
    obtain rfl : g = g' := gate_ext wired.unique mem mem' hw
    have same : as = bs := by
      have other : List.Forall₂ (c.Denotes init eval) g.inputs bs :=
        List.forall₂_iff_zip.2 ⟨length', inputs' _ _⟩
      have unique : Relator.RightUnique (c.Denotes init eval) :=
        fun _ _ _ => Denotes.unique wired init_unique eval_unique
      exact List.right_unique_forall₂' unique inputs other
    exact same ▸ result'

/-! ## 2. Maps from wires to values -/

/-- Whatever the map holds for a wire is the wire's value. -/
def Agrees (c : Circuit) (init : Text → α → Prop) (eval : Gate → List α → α → Prop)
    (es : List (Text × α)) : Prop := ∀ w a, Entries.get? es w = some a → c.Denotes init eval w a

theorem Agrees.read {es : List (Text × α)} (agrees : c.Agrees init eval es) {ws : List Text}
    {as : List α} (h : ws.mapM (Entries.get? es) = some as) :
    List.Forall₂ (c.Denotes init eval) ws as :=
  (Outcome.mapM_eq_some_iff.1 h).imp fun w a => agrees w a

/-- Writing what a gate makes of the values read keeps the agreement. -/
theorem Agrees.put {es : List (Text × α)} (agrees : c.Agrees init eval es) {g : Gate} {as : List α}
    {a : α} (mem : g ∈ c.gates) (h : g.inputs.mapM (Entries.get? es) = some as) (result : eval g as a) :
    c.Agrees init eval (Entries.put g.output a es) := by
  -- The new binding is the gate's value, the others were right before.
  intro w b hw
  rw [Entries.get?_put] at hw
  split at hw
  case isTrue same =>
    obtain rfl := Option.some.inj hw
    obtain ⟨length, inputs⟩ := List.forall₂_iff_zip.1 (agrees.read h)
    rw [same]
    exact .gate mem length (fun v b => inputs) result
  case isFalse => exact agrees w b hw

/-! ## 3. Gates in order -/

def arranged (c : Circuit) (indices : List Nat) : List (Nat × Gate) :=
  indices.filterMap fun i => (c.gates[i]?).map (i, ·)

theorem mem_gates_of_arranged {indices : List Nat} {e : Nat × Gate} (h : e ∈ c.arranged indices) :
    e.2 ∈ c.gates := by
  obtain ⟨i, -, hi⟩ := List.mem_filterMap.1 h
  obtain ⟨g, hg, rfl⟩ := Option.map_eq_some_iff.1 hi
  exact List.mem_of_getElem? hg

/-- Every gate reads only wires that are known by then, some being known from the start. -/
def Flows (known : Text → Prop) : List (Nat × Gate) → Prop
  | [] => True
  | e :: rest => (∀ w ∈ e.2.inputs, known w) ∧ Flows (fun w => w = e.2.output ∨ known w) rest

theorem Flows.mono {known known' : Text → Prop} (more : ∀ w, known w → known' w)
    {gates : List (Nat × Gate)} (h : Flows known gates) : Flows known' gates := by
  induction gates generalizing known known' with
  | nil => trivial
  | cons e rest ih =>
    exact ⟨fun w hw => more w (h.1 w hw), ih (fun w hw => hw.imp_right (more w)) h.2⟩

/-- What is written for a wire becomes known, and nothing that was known is lost. -/
theorem Flows.put {es : List (Text × α)} {w : Text} {gates : List (Nat × Gate)}
    (h : Flows (fun v => v = w ∨ ∃ b, Entries.get? es v = some b) gates) (a : α) :
    Flows (fun v => ∃ b, Entries.get? (Entries.put w a es) v = some b) gates := by
  refine h.mono fun v hv => ?_
  rw [Entries.get?_put]
  split
  case isTrue => exact ⟨a, rfl⟩
  case isFalse other => exact hv.resolve_left other

theorem Wired.flows_arranged (wired : c.Wired) {known : Text → Prop} {done indices : List Nat}
    (inputs : ∀ w ∈ c.inputs, known w)
    (before : ∀ j ∈ done, ∀ g, c.gates[j]? = some g → known g.output)
    (h : InOrder c.sources done indices) : Flows known (c.arranged indices) := by
  induction h generalizing known with
  | nil => trivial
  | @cons done order i ready _ ih =>
    cases hg : c.gates[i]? with
    | none =>
      -- An index without a gate is left out.
      have skip : c.arranged (i :: order) = c.arranged order := by simp [arranged, hg]
      rw [skip]
      apply ih inputs
      intro j hj g hjg
      rcases List.mem_cons.1 hj with rfl | hj
      · rw [hg] at hjg
        cases hjg
      · exact before j hj g hjg
    | some g =>
      have take : c.arranged (i :: order) = (i, g) :: c.arranged order := by simp [arranged, hg]
      rw [take]
      refine ⟨fun w hw => ?_, ih (fun w hw => .inr (inputs w hw)) fun j hj g' hjg => ?_⟩
      · -- What the gate reads is an input, or the output of a source, and those come before.
        rcases wired.gates_bound g (List.mem_of_getElem? hg) w hw with input | ⟨source, hs, rfl⟩
        · exact inputs w input
        · obtain ⟨j, hj⟩ := List.getElem?_of_mem hs
          exact before j (ready j ((mem_sources_iff wired.unique hg).2 ⟨source, hj, hw⟩)) source hj
      · rcases List.mem_cons.1 hj with rfl | hj
        · rw [hg] at hjg
          exact .inl (congrArg Gate.output (Option.some.inj hjg).symm)
        · exact .inr (before j hj g' hjg)

/-- A circuit's order is of all its gates, each listed once. -/
theorem order_perm {indices : List Nat} (h : c.order = .ok indices) :
    ((c.arranged indices).map (·.2)).Perm c.gates := by
  obtain ⟨-, hs⟩ := order_eq_ok_iff.1 h
  have perm : indices.Perm (List.range c.gates.length) := by simpa using schedule_perm hs
  have gates : (c.arranged indices).map (·.2) = indices.filterMap fun i => c.gates[i]? := by
    simp [arranged, List.map_filterMap, Option.map_map, Function.comp_def]
  rw [gates]
  exact (perm.filterMap _).trans (.of_eq (filterMap_getElem?_range c.gates))

/-- What the order of a circuit is good for: every gate is there, and reads only what is known. -/
theorem order_spec {indices : List Nat} (h : c.order = .ok indices) :
    (∀ g, g ∈ c.gates ↔ ∃ i, (i, g) ∈ c.arranged indices) ∧
      Flows (· ∈ c.inputs) (c.arranged indices) := by
  obtain ⟨wired, hs⟩ := order_eq_ok_iff.1 h
  refine ⟨fun g => ?_, wired.flows_arranged (fun _ => id) (by simp) (schedule_inOrder hs)⟩
  rw [← (order_perm h).mem_iff, List.mem_map]
  constructor
  · rintro ⟨⟨i, _⟩, mem, rfl⟩
    exact ⟨i, mem⟩
  · rintro ⟨i, mem⟩
    exact ⟨_, mem, rfl⟩

end SealedFields.Circuit
