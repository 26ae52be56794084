import Mathlib.Data.List.Perm.Basic
import SealedFields.Proofs.Circuit.Execution

/-!
# Listing gates in another order

The list of a circuit's gates says which gates there are and nothing else. Two circuits that differ by a
permutation of their gates compile together, run together, and answer the same.
-/

namespace SealedFields.Circuit

variable {c : Circuit} {gates : List Gate}

theorem Bound.of_perm (perm : gates.Perm c.gates) {w : Text} (h : c.Bound w) :
    ({ c with gates } : Circuit).Bound w := by
  rcases h with input | ⟨g, hg, rfl⟩
  · exact .inl input
  · exact .inr ⟨g, perm.mem_iff.2 hg, rfl⟩

theorem Wired.of_perm (perm : gates.Perm c.gates) (h : c.Wired) :
    ({ c with gates } : Circuit).Wired where
  fresh g hg := h.fresh g (perm.mem_iff.1 hg)
  unique := (perm.map Gate.output).nodup_iff.2 h.unique
  gates_bound g hg w hw := (h.gates_bound g (perm.mem_iff.1 hg) w hw).of_perm perm
  outputs_bound w hw := (h.outputs_bound w hw).of_perm perm

theorem feeds_of_perm (perm : gates.Perm c.gates) : ({ c with gates } : Circuit).Feeds = c.Feeds := by
  funext w v
  simp only [Feeds, perm.mem_iff]

theorem Denotes.of_perm {α : Type} {init : Text → α → Prop} {eval : Gate → List α → α → Prop}
    (perm : gates.Perm c.gates) {w : Text} {a : α} (h : c.Denotes init eval w a) :
    ({ c with gates } : Circuit).Denotes init eval w a := by
  refine h.mono ?_ ?_
  · exact fun w hw => hw
  · exact fun g hg => perm.mem_iff.2 hg

theorem Compiles.of_perm (perm : gates.Perm c.gates) {limit : Int} (h : c.Compiles limit) :
    ({ c with gates } : Circuit).Compiles limit where
  operations g hg := h.operations g (perm.mem_iff.1 hg)
  wired := h.wired.of_perm perm
  founded g hg := by
    rw [feeds_of_perm perm]
    exact h.founded g (perm.mem_iff.1 hg)
  amounts g hg := h.amounts g (perm.mem_iff.1 hg)
  nonneg := h.nonneg
  depths g hg := by
    obtain ⟨d, hd, le⟩ := h.depths g (perm.mem_iff.1 hg)
    exact ⟨d, hd.of_perm perm, le⟩

theorem compiles_perm_iff (perm : gates.Perm c.gates) {limit : Int} :
    ({ c with gates } : Circuit).Compiles limit ↔ c.Compiles limit :=
  ⟨fun h => Compiles.of_perm (c := { c with gates }) perm.symm h, fun h => h.of_perm perm⟩

theorem carries_of_perm (perm : gates.Perm c.gates) (e : Engine Float) (key : Option BootstrappingKey)
    (bound : Wires) : ({ c with gates } : Circuit).Carries e key bound = c.Carries e key bound := by
  funext w ct
  apply propext
  constructor
  · exact fun h => Denotes.of_perm (c := { c with gates }) perm.symm h
  · exact fun h => Denotes.of_perm perm h

/-- Executing comes to the same however the gates are listed. -/
theorem execute_perm_iff (perm : gates.Perm c.gates) {e : Engine Float} {limit : Int} {bound : Wires}
    {key : Option BootstrappingKey} {result : Wires} :
    ({ c with gates } : Circuit).execute e limit bound key = .ok result ↔
      c.execute e limit bound key = .ok result := by
  rw [execute_eq_ok_iff, execute_eq_ok_iff, compiles_perm_iff perm, carries_of_perm perm]
  simp only [perm.mem_iff]
  rfl

/-- An executed circuit answers, for every declared output, the one ciphertext that the wire carries. -/
theorem get?_execute {e : Engine Float} {limit : Int} {bound : Wires} {key : Option BootstrappingKey}
    {result : Wires} (h : c.execute e limit bound key = .ok result) {w : Text} (hw : w ∈ c.outputs) :
    ∃ ct, Entries.get? result w = some ct ∧ ∀ ct', c.Carries e key bound w ct' ↔ ct' = ct := by
  obtain ⟨compiles, -, -, cts, hcts, rfl⟩ := execute_eq_ok_iff.1 h
  obtain ⟨ct, hzip, carries⟩ := Outcome.exists_mem_zip hcts hw
  refine ⟨ct, ?_, fun ct' => ⟨fun h => Carries.unique compiles.wired h carries, ?_⟩⟩
  · apply Entries.get?_ofWrites hzip
    exact fun v hv => Carries.unique compiles.wired (List.forall₂_zip hcts hv) carries
  · rintro rfl
    exact carries

/-- The list order of a circuit's gates is irrelevant: two circuits that differ by a permutation of their
gates compile together and execute together, with the same result. It gives for every declared output
the ciphertext read recursively off the gates. -/
theorem gate_order_irrelevant (c : Circuit) (gates : List Gate) (perm : gates.Perm c.gates)
    (e : Engine Float) (limit : Int) (key : Option BootstrappingKey) (bound : Wires) :
    ((∃ plan, c.compile limit e.growth = .ok plan) ↔
        ∃ plan, ({ c with gates } : Circuit).compile limit e.growth = .ok plan) ∧
      (∀ result, c.execute e limit bound key = .ok result ↔
        ({ c with gates } : Circuit).execute e limit bound key = .ok result) ∧
      ∀ result, c.execute e limit bound key = .ok result → ∀ name ∈ c.outputs, ∃ ct,
        Entries.get? result name = some ct ∧ ∀ ct', c.Carries e key bound name ct' ↔ ct' = ct := by
  refine ⟨?_, fun result => (execute_perm_iff perm).symm, fun result h name hn => get?_execute h hn⟩
  rw [exists_compile_iff, exists_compile_iff]
  exact (compiles_perm_iff perm).symm

/-- A product, and the sum that it reads. -/
def productFirst : Circuit where
  name := "product first"
  inputs := ["x", "y"]
  outputs := ["p"]
  gates := [⟨"MULTIPLY", ["s", "x"], "p", []⟩, ⟨"add", ["x", "y"], "s", []⟩]
  autoBootstrap := true

/-- Fresh ciphertexts on its inputs. -/
def productInputs : Wires :=
  [("x", ⟨[2], 3.2, 0, 2, false, false⟩), ("y", ⟨[3], 3.2, 0, 2, false, false⟩)]

/-- The sum may as well be listed first: the circuit compiles and runs all the same. -/
theorem gate_order_irrelevant_productFirst :
    productFirst.gates.reverse.Perm productFirst.gates ∧
      (∃ plan, ({ productFirst with gates := productFirst.gates.reverse } : Circuit).compile 1 .standard
        = .ok plan) ∧
      ∃ result, ({ productFirst with gates := productFirst.gates.reverse } : Circuit).execute
        (Parameters.registered .tfhe).engine 1 productInputs none = .ok result := by
  have perm : productFirst.gates.reverse.Perm productFirst.gates := List.reverse_perm _
  obtain ⟨compiles, executes, -⟩ := gate_order_irrelevant productFirst _ perm
    (Parameters.registered .tfhe).engine 1 none productInputs
  obtain ⟨result, h⟩ : ∃ result, productFirst.execute (Parameters.registered .tfhe).engine 1
      productInputs none = .ok result := ⟨_, rfl⟩
  exact ⟨perm, compiles.1 ⟨_, rfl⟩, result, (executes result).1 h⟩

end SealedFields.Circuit
