import SealedFields.Proofs.Engine.Account

/-!
# Products of two

Which products of two an operation takes on the way to its result, whether or not it gets there. Each operation is
computed once more with its products noted; with the notes left out it is the operation itself. However many small
factors a chain has, no product of two in it takes a large one.
-/

namespace SealedFields

variable {ε ε' ν α β : Type}

/-! ## 1. Computations with notes -/

/-- What a computation comes to, and the products of two that it takes. -/
structure Noted (ε ν α : Type) where
  outcome : Except ε α
  products : List (Ciphertext ν × Ciphertext ν)

namespace Noted

/-- A computation without products. -/
def plain (x : Except ε α) : Noted ε ν α := ⟨x, []⟩

/-- What follows a failure is not computed. -/
def bind (x : Noted ε ν α) (f : α → Noted ε ν β) : Noted ε ν β :=
  match x.outcome with
  | .ok a => ⟨(f a).outcome, x.products ++ (f a).products⟩
  | .error e => ⟨.error e, x.products⟩

instance : Monad (Noted ε ν) where
  pure a := plain (.ok a)
  bind := bind

def mapError (f : ε → ε') (x : Noted ε ν α) : Noted ε' ν α := ⟨x.outcome.mapError f, x.products⟩

variable {x : Noted ε ν α} {f : α → Noted ε ν β} {P : Ciphertext ν × Ciphertext ν → Prop}

@[simp] theorem outcome_pure (a : α) : (pure a : Noted ε ν α).outcome = .ok a := rfl

@[simp] theorem outcome_plain (x : Except ε α) : (plain x : Noted ε ν α).outcome = x := rfl

@[simp] theorem outcome_bind (x : Noted ε ν α) (f : α → Noted ε ν β) :
    (x >>= f).outcome = x.outcome >>= fun a => (f a).outcome := by
  show (bind x f).outcome = _
  unfold bind
  cases x.outcome <;> rfl

@[simp] theorem outcome_mapError (f : ε → ε') (x : Noted ε ν α) : (x.mapError f).outcome = x.outcome.mapError f := rfl

theorem products_bind_of_ok {a : α} (h : x.outcome = .ok a) : (x >>= f).products = x.products ++ (f a).products := by
  show (bind x f).products = _
  unfold bind
  rw [h]

theorem forall_products_plain (x : Except ε α) : ∀ p ∈ (plain x : Noted ε ν α).products, P p := nofun

/-- What holds of all products of both parts holds of all products. -/
theorem forall_products_bind (first : ∀ p ∈ x.products, P p)
    (later : ∀ a, x.outcome = .ok a → ∀ p ∈ (f a).products, P p) : ∀ p ∈ (x >>= f).products, P p := by
  show ∀ p ∈ (bind x f).products, P p
  unfold bind
  cases h : x.outcome with
  | error e => exact first
  | ok a =>
    intro p member
    rcases List.mem_append.1 member with early | late
    · exact first p early
    · exact later a h p late

end Noted

/-! ## 2. The engine with its products noted -/

namespace Engine

open Ciphertext (maxSize)

variable [NoiseArithmetic ν] {e : Engine ν} {key : Option BootstrappingKey} {a b r : Ciphertext ν} {op : Operation}
  {inputs rest : List (Ciphertext ν)} {amount : Int}

def multiplyNoted (e : Engine ν) (a b : Ciphertext ν) : Noted (EngineFault ν) ν (Ciphertext ν) :=
  ⟨e.multiply a b, [(a, b)]⟩

def multiplyStepNoted (e : Engine ν) (a b : Ciphertext ν) : Noted (EngineFault ν) ν (Ciphertext ν) := do
  let c ← e.multiplyNoted a b
  .plain (if c.needsRelinearization then relinearize c else .ok c)

def productFromNoted (e : Engine ν) : Ciphertext ν → List (Ciphertext ν) → Noted (EngineFault ν) ν (Ciphertext ν)
  | a, [] => pure a
  | a, b :: rest => do productFromNoted e (← e.multiplyStepNoted a b) rest

def multiplyChainNoted (e : Engine ν) : List (Ciphertext ν) → Noted (EngineFault ν) ν (Ciphertext ν)
  | a :: b :: rest => e.productFromNoted a (b :: rest)
  | inputs => .plain (.error (.arity .multiply inputs.length))

/-- Only the product of several takes any product of two. -/
def applyNoted (e : Engine ν) (op : Operation) (inputs : List (Ciphertext ν)) (amount : Int)
    (key : Option BootstrappingKey) : Noted (EngineFault ν) ν (Ciphertext ν) :=
  match op with
  | .multiply => e.multiplyChainNoted inputs
  | op => .plain (e.apply op inputs amount key)

def evaluateNoted (e : Engine ν) (op : Operation) (inputs : List (Ciphertext ν)) (amount : Int)
    (autoBootstrap : Bool) (key : Option BootstrappingKey) : Noted (EngineFault ν) ν (Evaluation ν) := do
  let result ← e.applyNoted op inputs amount key
  .plain (if !result.isExhausted then .ok ⟨result, op, false⟩
    else if autoBootstrap then do return ⟨← e.bootstrap result key, op, true⟩
    else .error (.noiseOverflow result.noise op))

theorem outcome_multiplyStepNoted (e : Engine ν) (a b : Ciphertext ν) :
    (e.multiplyStepNoted a b).outcome = e.multiplyStep a b :=
  Noted.outcome_bind ..

theorem outcome_productFromNoted (e : Engine ν) (a : Ciphertext ν) (rest : List (Ciphertext ν)) :
    (e.productFromNoted a rest).outcome = e.productFrom a rest := by
  induction rest generalizing a with
  | nil => rfl
  | cons b rest ih =>
    rw [productFromNoted, productFrom, Noted.outcome_bind, outcome_multiplyStepNoted]
    simp only [ih]

theorem outcome_applyNoted (e : Engine ν) (op : Operation) (inputs : List (Ciphertext ν)) (amount : Int)
    (key : Option BootstrappingKey) : (e.applyNoted op inputs amount key).outcome = e.apply op inputs amount key := by
  cases op with
  | multiply =>
    show (e.multiplyChainNoted inputs).outcome = e.multiplyChain inputs
    match inputs with
    | [] | [_] => rfl
    | a :: b :: rest => exact outcome_productFromNoted e a (b :: rest)
  | add | subtract | negate | rotate | bootstrap => rfl

/-- With the notes left out, an operation is what it was. -/
theorem outcome_evaluateNoted (e : Engine ν) (op : Operation) (inputs : List (Ciphertext ν)) (amount : Int)
    (autoBootstrap : Bool) (key : Option BootstrappingKey) :
    (e.evaluateNoted op inputs amount autoBootstrap key).outcome = e.evaluate op inputs amount autoBootstrap key := by
  unfold evaluateNoted evaluate
  rw [Noted.outcome_bind, outcome_applyNoted]
  rfl

/-! ## 3. Which products there are -/

theorem length_products_productFromNoted (h : e.productFrom a rest = .ok r) :
    (e.productFromNoted a rest).products.length = rest.length := by
  -- Induction on the factors; each of them is taken by one product.
  induction rest generalizing a with
  | nil => rfl
  | cons b rest ih =>
    obtain ⟨c, made, h⟩ := Outcome.bind_eq_ok_iff.1 h
    have one : (e.multiplyStepNoted a b).products.length = 1 := by
      show (Noted.bind _ _).products.length = 1
      unfold Noted.bind
      cases (e.multiplyNoted a b).outcome <;> rfl
    rw [productFromNoted, Noted.products_bind_of_ok ((outcome_multiplyStepNoted e a b).trans made), List.length_append,
      ih h, one, List.length_cons, Nat.add_comm]

/-- An operation that gets to its result has as many products noted as it takes. -/
theorem length_products_applyNoted (h : e.apply op inputs amount key = .ok r) :
    (e.applyNoted op inputs amount key).products.length = op.products inputs.length := by
  cases applies_of_apply h with
  | multiply product => exact length_products_productFromNoted product
  | add | subtract | negate | rotate | bootstrap => rfl

/-- A product of two small ciphertexts. -/
def SmallFactors (p : Ciphertext ν × Ciphertext ν) : Prop := Small p.1 ∧ Small p.2

/-- However many small factors there are, no factor of a single product is large. -/
theorem small_products_productFromNoted (first : Small a) (others : ∀ b ∈ rest, Small b) :
    ∀ p ∈ (e.productFromNoted a rest).products, SmallFactors p := by
  -- Induction on the factors; a step leaves a ciphertext that is small again.
  induction rest generalizing a with
  | nil => exact Noted.forall_products_plain _
  | cons b rest ih =>
    rw [List.forall_mem_cons] at others
    refine Noted.forall_products_bind ?_ fun c made => ?_
    · refine Noted.forall_products_bind ?_ fun _ _ => Noted.forall_products_plain _
      exact List.forall_mem_singleton.2 ⟨first, others.1⟩
    · rw [outcome_multiplyStepNoted] at made
      exact ih (multiplyStep_eq_ok made).2.2 others.2

theorem small_products_applyNoted (all : ∀ a ∈ inputs, Small a) :
    ∀ p ∈ (e.applyNoted op inputs amount key).products, SmallFactors p := by
  cases op with
  | multiply =>
    show ∀ p ∈ (e.multiplyChainNoted inputs).products, SmallFactors p
    unfold multiplyChainNoted
    split
    case h_1 a b rest =>
      rw [List.forall_mem_cons] at all
      exact small_products_productFromNoted all.1 all.2
    case h_2 => exact Noted.forall_products_plain _
  | add | subtract | negate | rotate | bootstrap => exact Noted.forall_products_plain _

theorem small_products_evaluateNoted {autoBootstrap : Bool} (all : ∀ a ∈ inputs, Small a) :
    ∀ p ∈ (e.evaluateNoted op inputs amount autoBootstrap key).products, SmallFactors p :=
  Noted.forall_products_bind (small_products_applyNoted all) fun _ _ => Noted.forall_products_plain _

end Engine

end SealedFields
