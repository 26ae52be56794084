import SealedFields.Engine.Report
import SealedFields.Proofs.Outcome

/-!
# What may go wrong in an evaluation

An operation with as many inputs as it takes fails only by what the inputs or the key are: a ciphertext
that must not be handed out, noise that is not refreshed, or a bootstrapping key of another scheme.
-/

namespace SealedFields

theorem Operation.accepts_iff {op : Operation} {n : Nat} :
    op.accepts n = true ↔ if op.isUnbounded = true then op.least ≤ n else n = op.least := by
  unfold Operation.accepts
  by_cases h : op.isUnbounded = true
  · rw [if_pos h, if_pos h, decide_eq_true_eq, Int.ofNat_le]
  · rw [if_neg h, if_neg h, decide_eq_true_eq, Int.natCast_inj]

namespace Engine

open Outcome (FailsOnly)

variable {ν : Type} [NoiseArithmetic ν] {e : Engine ν} {key : Option BootstrappingKey}

inductive MayFail (e : Engine ν) (key : Option BootstrappingKey) : EngineFault ν → Prop
  | ciphertext (f : Ciphertext.Fault ν) : MayFail e key (.ciphertext f)
  | noise (level : ν) (op : Operation) : MayFail e key (.noiseOverflow level op)
  | foreignKey {k : BootstrappingKey} (given : key = some k) (foreign : k.scheme ≠ e.scheme) :
      MayFail e key (.unsupported "bootstrap"
        (some ("bootstrapping key is for " ++ k.scheme.tag ++ ", engine is " ++ e.scheme.tag)))

/-! ## 1. Single operations -/

theorem failsOnly_handOut (a : Ciphertext ν) : FailsOnly (e.MayFail key) (handOut a) := by
  intro fault h
  obtain ⟨f, -, rfl⟩ := Outcome.mapError_eq_error_iff.1 h
  exact .ciphertext f

theorem failsOnly_subtract (a b : Ciphertext ν) : FailsOnly (e.MayFail key) (e.subtract a b) :=
  (failsOnly_handOut _).bind fun _ => failsOnly_handOut _

theorem failsOnly_bootstrap (a : Ciphertext ν) : FailsOnly (e.MayFail key) (e.bootstrap a key) := by
  unfold bootstrap
  split
  case h_1 k =>
    by_cases same : k.scheme = e.scheme
    · rw [if_pos same]
      exact failsOnly_handOut _
    · rw [if_neg same]
      intro fault h
      obtain rfl := Except.error.inj h
      exact .foreignKey rfl same
  case h_2 => exact failsOnly_handOut _

theorem failsOnly_multiplyStep (a b : Ciphertext ν) : FailsOnly (e.MayFail key) (e.multiplyStep a b) := by
  refine (failsOnly_handOut _).bind fun product => ?_
  split
  case isTrue => exact failsOnly_handOut _
  case isFalse => exact .ok product

/-- A sum is a loop that adds. -/
theorem sumFrom_eq_foldlM (a : Ciphertext ν) (rest : List (Ciphertext ν)) :
    e.sumFrom a rest = rest.foldlM e.add a := by
  induction rest generalizing a with
  | nil => rfl
  | cons b rest ih => simp only [sumFrom, List.foldlM_cons, ih]

/-- A product is a loop that takes one factor more. -/
theorem productFrom_eq_foldlM (a : Ciphertext ν) (rest : List (Ciphertext ν)) :
    e.productFrom a rest = rest.foldlM e.multiplyStep a := by
  induction rest generalizing a with
  | nil => rfl
  | cons b rest ih => simp only [productFrom, List.foldlM_cons, ih]

theorem failsOnly_sumFrom (a : Ciphertext ν) (rest : List (Ciphertext ν)) :
    FailsOnly (e.MayFail key) (e.sumFrom a rest) := by
  rw [sumFrom_eq_foldlM]
  exact .foldlM (fun _ _ => failsOnly_handOut _) a rest

theorem failsOnly_productFrom (a : Ciphertext ν) (rest : List (Ciphertext ν)) :
    FailsOnly (e.MayFail key) (e.productFrom a rest) := by
  rw [productFrom_eq_foldlM]
  exact .foldlM failsOnly_multiplyStep a rest

/-! ## 2. Any operation -/

theorem exists_cons_cons_of_two_le {α : Type} {l : List α} (h : 2 ≤ l.length) : ∃ a b rest, l = a :: b :: rest := by
  match l, h with
  | a :: b :: rest, _ => exact ⟨a, b, rest, rfl⟩

/-- With as many inputs as the operation takes, the arity is no reason to fail. -/
theorem failsOnly_apply {op : Operation} {inputs : List (Ciphertext ν)} {amount : Int}
    (accepts : op.accepts inputs.length = true) :
    FailsOnly (e.MayFail key) (e.apply op inputs amount key) := by
  cases op with
  | add =>
    have least : 2 ≤ inputs.length := Operation.accepts_iff.1 accepts
    obtain ⟨a, b, rest, rfl⟩ := exists_cons_cons_of_two_le least
    exact failsOnly_sumFrom a (b :: rest)
  | multiply =>
    have least : 2 ≤ inputs.length := Operation.accepts_iff.1 accepts
    obtain ⟨a, b, rest, rfl⟩ := exists_cons_cons_of_two_le least
    exact failsOnly_productFrom a (b :: rest)
  | subtract =>
    have two : inputs.length = 2 := Operation.accepts_iff.1 accepts
    obtain ⟨a, b, rfl⟩ := List.length_eq_two.1 two
    exact failsOnly_subtract a b
  | negate =>
    have one : inputs.length = 1 := Operation.accepts_iff.1 accepts
    obtain ⟨a, rfl⟩ := List.length_eq_one_iff.1 one
    exact failsOnly_handOut _
  | rotate =>
    have one : inputs.length = 1 := Operation.accepts_iff.1 accepts
    obtain ⟨a, rfl⟩ := List.length_eq_one_iff.1 one
    exact failsOnly_handOut _
  | bootstrap =>
    have one : inputs.length = 1 := Operation.accepts_iff.1 accepts
    obtain ⟨a, rfl⟩ := List.length_eq_one_iff.1 one
    exact failsOnly_bootstrap a

theorem failsOnly_evaluate {op : Operation} {inputs : List (Ciphertext ν)} {amount : Int} {refreshes : Bool}
    (accepts : op.accepts inputs.length = true) :
    FailsOnly (e.MayFail key) (e.evaluate op inputs amount refreshes key) := by
  refine (failsOnly_apply accepts).bind fun result => ?_
  by_cases fresh : (!result.isExhausted) = true
  · rw [if_pos fresh]
    exact .ok _
  · rw [if_neg fresh]
    cases refreshes with
    | true => exact (failsOnly_bootstrap result).bind fun refreshed => .ok _
    | false =>
      intro fault h
      obtain rfl := Except.error.inj h
      exact .noise _ _

/-! ## 3. Reports -/

/-- No fault of the engine is reported as a missing key. -/
theorem failure_ne_missingKey (fault : EngineFault Float) : fault.failure ≠ .missingKey := by
  cases fault <;> simp [EngineFault.failure, Ciphertext.Fault.failure, Failure.missingKey, Failure.overflow]

/-- No fault of the engine is reported as a depth. -/
theorem failure_ne_circuitTooDeep (fault : EngineFault Float) (depth most : Int) (name : Option Text) :
    fault.failure ≠ .field (.circuitTooDeep depth most name) := by
  cases fault <;> simp [EngineFault.failure, Ciphertext.Fault.failure, Failure.overflow]

end Engine

end SealedFields
