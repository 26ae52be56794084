import SealedFields.Proofs.Engine.Faults

/-!
# The account of an operation

What every operation makes of the account of its inputs: noise, depth and size. A product of several is
taken in steps of two, and each step leaves a ciphertext that is small enough to be multiplied again. A
result that is handed out is not exhausted.
-/

namespace SealedFields

/-- How many products of two the operation takes of so many inputs. -/
def Operation.products (op : Operation) (count : Nat) : Nat := if op = .multiply then count - 1 else 0

namespace Engine

open NoiseArithmetic (base less limit)
open Ciphertext (maxSize freshSize)

variable {ν : Type} [NoiseArithmetic ν] {e : Engine ν} {key : Option BootstrappingKey}
  {a b c r : Ciphertext ν} {op : Operation} {inputs rest : List (Ciphertext ν)} {amount : Int}

/-! ## 1. Single operations -/

theorem handOut_eq_ok_iff : handOut c = .ok r ↔ c.Valid ∧ r = c := by
  rw [handOut, Outcome.mapError_eq_ok_iff, Ciphertext.checked_eq_ok_iff]

theorem handOut_of_valid (valid : c.Valid) : handOut c = .ok c := handOut_eq_ok_iff.2 ⟨valid, rfl⟩

theorem bootstrap_eq_ok (h : e.bootstrap a key = .ok r) :
    r = { a with noise := base, depth := 0, bootstrapped := true } := by
  unfold bootstrap at h
  split at h
  case h_1 k =>
    split at h
    case isTrue => exact (handOut_eq_ok_iff.1 h).2
    case isFalse => cases h
  case h_2 => exact (handOut_eq_ok_iff.1 h).2

theorem freshSize_le_maxSize : freshSize ≤ maxSize := by decide

/-- One factor more: noise levels multiply, the depth grows by one, and the size is fit for another factor. -/
theorem multiplyStep_eq_ok (h : e.multiplyStep a b = .ok r) :
    r.noise = NoiseArithmetic.mul (NoiseArithmetic.mul a.noise b.noise) e.growth.multiply ∧
      r.depth = max a.depth b.depth + 1 ∧ r.size ≤ maxSize := by
  obtain ⟨product, made, h⟩ := Outcome.bind_eq_ok_iff.1 h
  obtain ⟨-, rfl⟩ := handOut_eq_ok_iff.1 made
  split at h
  case isTrue =>
    obtain ⟨-, rfl⟩ := handOut_eq_ok_iff.1 h
    exact ⟨rfl, rfl, freshSize_le_maxSize⟩
  case isFalse small =>
    obtain rfl := Except.ok.inj h
    exact ⟨rfl, rfl, by simpa [Ciphertext.needsRelinearization] using small⟩

theorem subtract_eq_ok (h : e.subtract a b = .ok r) : ∃ n, e.negate b = .ok n ∧ e.add a n = .ok r :=
  Outcome.bind_eq_ok_iff.1 h

/-! ## 2. Any operation -/

/-- The ways in which an operation has a result, each with as many inputs as it takes. -/
inductive Applies (e : Engine ν) (amount : Int) (key : Option BootstrappingKey) :
    Operation → List (Ciphertext ν) → Ciphertext ν → Prop
  | add {a b r : Ciphertext ν} {rest : List (Ciphertext ν)} (h : e.sumFrom a (b :: rest) = .ok r) :
      Applies e amount key .add (a :: b :: rest) r
  | multiply {a b r : Ciphertext ν} {rest : List (Ciphertext ν)} (h : e.productFrom a (b :: rest) = .ok r) :
      Applies e amount key .multiply (a :: b :: rest) r
  | subtract {a b r : Ciphertext ν} (h : e.subtract a b = .ok r) : Applies e amount key .subtract [a, b] r
  | negate {a r : Ciphertext ν} (h : e.negate a = .ok r) : Applies e amount key .negate [a] r
  | rotate {a r : Ciphertext ν} (h : e.rotate a amount = .ok r) : Applies e amount key .rotate [a] r
  | bootstrap {a r : Ciphertext ν} (h : e.bootstrap a key = .ok r) : Applies e amount key .bootstrap [a] r

theorem applies_of_apply (h : e.apply op inputs amount key = .ok r) : e.Applies amount key op inputs r := by
  unfold apply at h
  split at h
  case h_1 =>
    unfold addMany at h
    split at h
    case h_1 => exact .add h
    case h_2 => cases h
  case h_2 =>
    unfold multiplyChain at h
    split at h
    case h_1 => exact .multiply h
    case h_2 => cases h
  case h_3 => exact .subtract h
  case h_4 => exact .negate h
  case h_5 => exact .rotate h
  case h_6 => exact .bootstrap h
  case h_7 => cases h

/-- What the primitive operations preserve. -/
structure Preserves (e : Engine ν) (P : Ciphertext ν → Prop) : Prop where
  add : ∀ {a b r}, P a → P b → e.add a b = .ok r → P r
  multiplyStep : ∀ {a b r}, P a → P b → e.multiplyStep a b = .ok r → P r
  negate : ∀ {a r}, P a → e.negate a = .ok r → P r
  rotate : ∀ {a r} {amount : Int}, P a → e.rotate a amount = .ok r → P r
  bootstrap : ∀ {a r} {key : Option BootstrappingKey}, P a → e.bootstrap a key = .ok r → P r

namespace Preserves

variable {P : Ciphertext ν → Prop} (preserves : e.Preserves P)
include preserves

theorem sumFrom (first : P a) (others : ∀ b ∈ rest, P b) (h : e.sumFrom a rest = .ok r) : P r := by
  rw [sumFrom_eq_foldlM] at h
  exact Outcome.foldlM_preserves h first fun _ b member _ ha made => preserves.add ha (others b member) made

theorem productFrom (first : P a) (others : ∀ b ∈ rest, P b) (h : e.productFrom a rest = .ok r) : P r := by
  rw [productFrom_eq_foldlM] at h
  refine Outcome.foldlM_preserves h first fun _ b member _ ha made => ?_
  exact preserves.multiplyStep ha (others b member) made

/-- What the primitive operations preserve every operation does. -/
theorem apply (all : ∀ a ∈ inputs, P a) (h : e.apply op inputs amount key = .ok r) : P r := by
  cases applies_of_apply h with
  | add sum =>
    rw [List.forall_mem_cons] at all
    exact preserves.sumFrom all.1 all.2 sum
  | multiply product =>
    rw [List.forall_mem_cons] at all
    exact preserves.productFrom all.1 all.2 product
  | subtract h =>
    rw [List.forall_mem_cons, List.forall_mem_singleton] at all
    obtain ⟨n, negated, h⟩ := subtract_eq_ok h
    exact preserves.add all.1 (preserves.negate all.2 negated) h
  | negate h => exact preserves.negate (List.forall_mem_singleton.1 all) h
  | rotate h => exact preserves.rotate (List.forall_mem_singleton.1 all) h
  | bootstrap h => exact preserves.bootstrap (List.forall_mem_singleton.1 all) h

end Preserves

/-- An operation that succeeds within the noise budget has its result, or the refreshed one. -/
theorem evaluate_eq_ok {refreshes : Bool} {ev : Evaluation ν}
    (h : e.evaluate op inputs amount refreshes key = .ok ev) :
    ∃ result, e.apply op inputs amount key = .ok result ∧
      (result.isExhausted = false ∧ ev = ⟨result, op, false⟩ ∨
        result.isExhausted = true ∧ ∃ r, e.bootstrap result key = .ok r ∧ ev = ⟨r, op, true⟩) := by
  obtain ⟨result, applied, h⟩ := Outcome.bind_eq_ok_iff.1 h
  refine ⟨result, applied, ?_⟩
  cases exhausted : result.isExhausted with
  | false =>
    rw [exhausted] at h
    exact .inl ⟨rfl, (Except.ok.inj h).symm⟩
  | true =>
    rw [exhausted] at h
    cases refreshes with
    | false => cases h
    | true =>
      obtain ⟨r, refreshed, h⟩ := Outcome.bind_eq_ok_iff.1 h
      exact .inr ⟨rfl, r, refreshed, (Except.ok.inj h).symm⟩

/-- An exhausted result that is not to be refreshed is refused, with its noise. -/
theorem evaluate_of_exhausted (applied : e.apply op inputs amount key = .ok r)
    (exhausted : r.isExhausted = true) :
    e.evaluate op inputs amount false key = .error (.noiseOverflow r.noise op) := by
  unfold evaluate
  rw [applied]
  show (if (!r.isExhausted) = true then _ else _) = _
  rw [exhausted]
  rfl

theorem Preserves.evaluate {P : Ciphertext ν → Prop} (preserves : e.Preserves P) {refreshes : Bool}
    {ev : Evaluation ν} (all : ∀ a ∈ inputs, P a) (h : e.evaluate op inputs amount refreshes key = .ok ev) :
    P ev.ciphertext := by
  obtain ⟨result, applied, ⟨-, rfl⟩ | ⟨-, r, refreshed, rfl⟩⟩ := evaluate_eq_ok h
  · exact preserves.apply all applied
  · exact preserves.bootstrap (preserves.apply all applied) refreshed

/-! ## 3. Noise -/

/-- No result is exhausted, provided that the base noise is within the limit. -/
theorem isExhausted_of_evaluate (within : less (limit : ν) base = false) {refreshes : Bool} {ev : Evaluation ν}
    (h : e.evaluate op inputs amount refreshes key = .ok ev) : ev.ciphertext.isExhausted = false := by
  obtain ⟨result, -, ⟨fresh, rfl⟩ | ⟨-, r, refreshed, rfl⟩⟩ := evaluate_eq_ok h
  · exact fresh
  · rw [bootstrap_eq_ok refreshed]
    exact within

/-! ## 4. Size -/

/-- May the ciphertext be multiplied as it is? -/
def Small (c : Ciphertext ν) : Prop := c.size ≤ maxSize

/-- Operations on small ciphertexts have small results. -/
theorem preserves_small (e : Engine ν) : e.Preserves Small where
  add ha _ h := by
    obtain ⟨-, rfl⟩ := handOut_eq_ok_iff.1 h
    exact ha
  multiplyStep _ _ h := (multiplyStep_eq_ok h).2.2
  negate ha h := by
    obtain ⟨-, rfl⟩ := handOut_eq_ok_iff.1 h
    exact ha
  rotate ha h := by
    obtain ⟨-, rfl⟩ := handOut_eq_ok_iff.1 h
    exact ha
  bootstrap ha h := by
    rw [bootstrap_eq_ok h]
    exact ha

/-! ## 5. Depth -/

variable {d : Nat}

theorem depth_of_sumFrom (first : a.depth ≤ d) (others : ∀ b ∈ rest, b.depth ≤ d)
    (h : e.sumFrom a rest = .ok r) : r.depth ≤ d := by
  rw [sumFrom_eq_foldlM] at h
  refine Outcome.foldlM_preserves (P := fun c => c.depth ≤ d) h first fun c b member sum hc made => ?_
  obtain ⟨-, rfl⟩ := handOut_eq_ok_iff.1 made
  exact Nat.max_le.2 ⟨hc, others b member⟩

theorem depth_of_productFrom (first : a.depth ≤ d) (others : ∀ b ∈ rest, b.depth ≤ d)
    (h : e.productFrom a rest = .ok r) : r.depth ≤ d + rest.length := by
  -- Induction on the factors; each takes the bound up by one, which the others need not reach.
  induction rest generalizing a d with
  | nil =>
    obtain rfl := Except.ok.inj h
    exact first
  | cons b rest ih =>
    rw [List.forall_mem_cons] at others
    obtain ⟨c, made, h⟩ := Outcome.bind_eq_ok_iff.1 h
    obtain ⟨-, depth, -⟩ := multiplyStep_eq_ok made
    have bound := ih (d := d + 1) (by omega) (fun b' member => Nat.le_succ_of_le (others.2 b' member)) h
    rw [List.length_cons]
    omega

/-- The result of an operation is deeper than its inputs by the products it takes, at most. -/
theorem depth_of_apply (all : ∀ a ∈ inputs, a.depth ≤ d) (h : e.apply op inputs amount key = .ok r) :
    r.depth ≤ d + op.products inputs.length := by
  cases applies_of_apply h with
  | add sum =>
    rw [List.forall_mem_cons] at all
    exact depth_of_sumFrom all.1 all.2 sum
  | multiply product =>
    rw [List.forall_mem_cons] at all
    exact depth_of_productFrom all.1 all.2 product
  | subtract h =>
    rw [List.forall_mem_cons, List.forall_mem_singleton] at all
    obtain ⟨n, negated, h⟩ := subtract_eq_ok h
    obtain ⟨-, rfl⟩ := handOut_eq_ok_iff.1 negated
    obtain ⟨-, rfl⟩ := handOut_eq_ok_iff.1 h
    exact Nat.max_le.2 all
  | negate h =>
    rw [List.forall_mem_singleton] at all
    obtain ⟨-, rfl⟩ := handOut_eq_ok_iff.1 h
    exact all
  | rotate h =>
    rw [List.forall_mem_singleton] at all
    obtain ⟨-, rfl⟩ := handOut_eq_ok_iff.1 h
    exact all
  | bootstrap h =>
    rw [bootstrap_eq_ok h]
    exact Nat.zero_le _

/-- A refreshed result has no depth at all. -/
theorem depth_of_evaluate {refreshes : Bool} {ev : Evaluation ν} (all : ∀ a ∈ inputs, a.depth ≤ d)
    (h : e.evaluate op inputs amount refreshes key = .ok ev) :
    ev.ciphertext.depth ≤ d + op.products inputs.length ∧
      (ev.refreshed = true → ev.ciphertext.depth = 0) := by
  obtain ⟨result, applied, ⟨-, rfl⟩ | ⟨-, r, refreshed, rfl⟩⟩ := evaluate_eq_ok h
  · exact ⟨depth_of_apply all applied, fun h => nomatch h⟩
  · rw [bootstrap_eq_ok refreshed]
    exact ⟨Nat.zero_le _, fun _ => rfl⟩

end Engine

end SealedFields
