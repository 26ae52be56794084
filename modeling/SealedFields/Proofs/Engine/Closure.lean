import SealedFields.Proofs.Engine.Exact

/-!
# Closure of the algebra

On ciphertexts with at least the base noise and at least two components, every operation comes to such a
ciphertext again, and unless it refreshes or rescales, to one that is at least as noisy as each of its operands.
Noise therefore never shrinks along a computation.
-/

namespace SealedFields

open NoiseArithmetic (base least)

/-- A ciphertext within the bounds of a fresh one; its depth is a natural number. -/
structure Ciphertext.Full (c : Ciphertext ℚ) : Prop where
  noise : base ≤ c.noise
  size : freshSize ≤ c.size

namespace Ciphertext.Full

variable {c : Ciphertext ℚ}

theorem one_le (full : c.Full) : 1 ≤ c.noise := by
  refine le_trans ?_ full.noise
  rw [exactBase_eq]
  norm_num

theorem pos (full : c.Full) : 0 < c.noise := one_pos.trans_le full.one_le

end Ciphertext.Full

namespace Engine

open Ciphertext (Full freshSize)

variable {e : Engine ℚ} {a b c d r : Ciphertext ℚ} {cs rest : List (Ciphertext ℚ)}
  {result : Computed ℚ (Ciphertext ℚ)}

/-! ## 1. Single operations -/

/-- The result is full, and at least as noisy as each of the operands. -/
structure Covers (operands : List (Ciphertext ℚ)) (result : Computed ℚ (Ciphertext ℚ)) (r : Ciphertext ℚ) :
    Prop where
  told : result = .ok r
  full : r.Full
  louder : ∀ c ∈ operands, c.noise ≤ r.noise

theorem Covers.mono (covers : Covers cs result r) (less : ∀ c ∈ rest, ∃ d ∈ cs, c.noise ≤ d.noise) :
    Covers rest result r := by
  refine ⟨covers.told, covers.full, fun c mem => ?_⟩
  obtain ⟨d, member, le⟩ := less c mem
  exact le.trans (covers.louder d member)

theorem handOut_of_full (full : c.Full) : handOut c = .ok c :=
  handOut_of_valid ⟨exactLess_eq_false_iff.2 (exactLeast_lt_base.le.trans full.noise), full.size⟩

theorem covers_one (full : a.Full) (louder : a.noise ≤ r.noise) (size : freshSize ≤ r.size) :
    Covers [a] (handOut r) r := by
  have hr : r.Full := ⟨full.noise.trans louder, size⟩
  exact ⟨handOut_of_full hr, hr, List.forall_mem_singleton.2 louder⟩

theorem covers_two (ha : a.Full) (left : a.noise ≤ r.noise) (right : b.noise ≤ r.noise) (size : freshSize ≤ r.size) :
    Covers [a, b] (handOut r) r := by
  have hr : r.Full := ⟨ha.noise.trans left, size⟩
  exact ⟨handOut_of_full hr, hr, List.forall_mem_cons.2 ⟨left, List.forall_mem_singleton.2 right⟩⟩

theorem covers_relinearize (full : a.Full) : ∃ r, Covers [a] (relinearize a) r :=
  ⟨_, covers_one full le_rfl le_rfl⟩

section Amplifying

variable (amplifying : e.Amplifying)
include amplifying

theorem covers_add (ha : a.Full) (hb : b.Full) : ∃ r, Covers [a, b] (e.add a b) r := by
  have left : a.noise ≤ a.noise + b.noise + e.growth.add := by linarith [hb.pos, amplifying.add]
  have right : b.noise ≤ a.noise + b.noise + e.growth.add := by linarith [ha.pos, amplifying.add]
  exact ⟨_, covers_two ha left right ha.size⟩

theorem covers_multiply (ha : a.Full) (hb : b.Full) : ∃ r, Covers [a, b] (e.multiply a b) r := by
  have product : a.noise * b.noise ≤ a.noise * b.noise * e.growth.multiply :=
    le_mul_of_one_le_right (mul_pos ha.pos hb.pos).le amplifying.multiply
  -- No factor is below one, so that the product is not below the other one.
  have left := (le_mul_of_one_le_right ha.pos.le hb.one_le).trans product
  have right := (le_mul_of_one_le_left hb.pos.le ha.one_le).trans product
  exact ⟨_, covers_two ha left right (ha.size.trans (Nat.le_add_right _ _))⟩

theorem covers_negate (full : a.Full) : ∃ r, Covers [a] (e.negate a) r :=
  ⟨_, covers_one full (le_mul_of_one_le_right full.pos.le amplifying.add) full.size⟩

theorem covers_rotate (full : a.Full) (amount : Int) : ∃ r, Covers [a] (e.rotate a amount) r :=
  ⟨_, covers_one full (le_mul_of_one_le_right full.pos.le amplifying.rotate) full.size⟩

theorem covers_subtract (ha : a.Full) (hb : b.Full) : ∃ r, Covers [a, b] (e.subtract a b) r := by
  obtain ⟨n, negated⟩ := covers_negate amplifying hb
  obtain ⟨r, added⟩ := covers_add amplifying ha negated.full
  have told : e.subtract a b = .ok r := Outcome.bind_eq_ok_iff.2 ⟨n, negated.told, added.told⟩
  refine ⟨r, (Covers.mk told added.full added.louder).mono ?_⟩
  rw [List.forall_mem_cons, List.forall_mem_singleton]
  exact ⟨⟨a, by simp, le_rfl⟩, ⟨n, by simp, negated.louder b (by simp)⟩⟩

theorem covers_multiplyStep (ha : a.Full) (hb : b.Full) : ∃ r, Covers [a, b] (e.multiplyStep a b) r := by
  obtain ⟨c, product⟩ := covers_multiply amplifying ha hb
  unfold multiplyStep
  rw [product.told]
  show ∃ r, Covers [a, b] (if c.needsRelinearization = true then relinearize c else .ok c) r
  split
  case isTrue =>
    obtain ⟨r, smaller⟩ := covers_relinearize product.full
    exact ⟨r, smaller.mono fun d mem => ⟨c, by simp, product.louder d mem⟩⟩
  case isFalse => exact ⟨c, rfl, product.full, product.louder⟩

end Amplifying

/-- What holds of a step holds of a loop of steps. -/
theorem covers_foldlM {step : Ciphertext ℚ → Ciphertext ℚ → Computed ℚ (Ciphertext ℚ)}
    (single : ∀ a b, a.Full → b.Full → ∃ r, Covers [a, b] (step a b) r) (first : a.Full)
    (others : ∀ b ∈ rest, b.Full) : ∃ r, Covers (a :: rest) (rest.foldlM step a) r := by
  -- Induction on the operands; what was covered so far goes into the next step.
  induction rest generalizing a with
  | nil => exact ⟨a, rfl, first, List.forall_mem_singleton.2 le_rfl⟩
  | cons b rest ih =>
    rw [List.forall_mem_cons] at others
    obtain ⟨c, stepped⟩ := single a b first others.1
    obtain ⟨r, covers⟩ := ih stepped.full others.2
    have told : (b :: rest).foldlM step a = .ok r :=
      List.foldlM_cons.trans (Outcome.bind_eq_ok_iff.2 ⟨c, stepped.told, covers.told⟩)
    refine ⟨r, (Covers.mk told covers.full covers.louder).mono ?_⟩
    rw [List.forall_mem_cons, List.forall_mem_cons]
    refine ⟨⟨c, by simp, stepped.louder a (by simp)⟩, ⟨c, by simp, stepped.louder b (by simp)⟩, fun d mem => ?_⟩
    exact ⟨d, List.mem_cons_of_mem c mem, le_rfl⟩

/-! ## 2. Refreshing and rescaling -/

theorem full_bootstrap {key : Option BootstrappingKey} (full : a.Full) (takes : ∀ k ∈ key, k.scheme = e.scheme) :
    ∃ r, e.bootstrap a key = .ok r ∧ r.Full := by
  have refreshed : ({ a with noise := base, depth := 0, bootstrapped := true } : Ciphertext ℚ).Full :=
    ⟨le_rfl, full.size⟩
  refine ⟨_, ?_, refreshed⟩
  cases key with
  | none => exact handOut_of_full refreshed
  | some k => exact (if_pos (takes k rfl)).trans (handOut_of_full refreshed)

theorem exactBase_le_atLeastBase (x : ℚ) : base ≤ atLeastBase x := by
  unfold atLeastBase
  split
  case isTrue above => exact (exactLess_iff.1 above).le
  case isFalse => exact le_rfl

theorem full_modulusSwitch {source target : Int} (full : a.Full) (hs : 0 < source) (ht : 0 < target) :
    ∃ r, modulusSwitch a source target = .ok r ∧ r.Full := by
  have positive : ¬ (source ≤ 0 ∨ target ≤ 0) := by omega
  unfold modulusSwitch
  rw [if_neg positive]
  have rescaled (payload : Bytes) (ratio : ℚ) :
      ({ a with payload, noise := atLeastBase (NoiseArithmetic.mul a.noise ratio) } : Ciphertext ℚ).Full :=
    ⟨exactBase_le_atLeastBase _, full.size⟩
  exact ⟨_, handOut_of_full (rescaled _ _), rescaled _ _⟩

/-! ## 3. Any operation -/

/-- An operation of the engine with its operands. -/
inductive Call where
  | add (a b : Ciphertext ℚ)
  | subtract (a b : Ciphertext ℚ)
  | multiply (a b : Ciphertext ℚ)
  | negate (a : Ciphertext ℚ)
  | rotate (a : Ciphertext ℚ) (amount : Int)
  | relinearize (a : Ciphertext ℚ)
  | bootstrap (a : Ciphertext ℚ) (key : Option BootstrappingKey)
  | modulusSwitch (a : Ciphertext ℚ) (source target : Int)
  | addMany (inputs : List (Ciphertext ℚ))
  | multiplyChain (inputs : List (Ciphertext ℚ))

namespace Call

def run (e : Engine ℚ) : Call → Computed ℚ (Ciphertext ℚ)
  | .add a b => e.add a b
  | .subtract a b => e.subtract a b
  | .multiply a b => e.multiply a b
  | .negate a => e.negate a
  | .rotate a amount => e.rotate a amount
  | .relinearize a => Engine.relinearize a
  | .bootstrap a key => e.bootstrap a key
  | .modulusSwitch a source target => Engine.modulusSwitch a source target
  | .addMany inputs => e.addMany inputs
  | .multiplyChain inputs => e.multiplyChain inputs

def operands : Call → List (Ciphertext ℚ)
  | .add a b | .subtract a b | .multiply a b => [a, b]
  | .negate a | .rotate a _ | .relinearize a | .bootstrap a _ | .modulusSwitch a _ _ => [a]
  | .addMany inputs | .multiplyChain inputs => inputs

/-- Does the operation refresh or rescale? -/
def resets : Call → Bool
  | .bootstrap _ _ | .modulusSwitch _ _ _ => true
  | _ => false

/-- What the operation asks for besides its operands: a key of the scheme if there is one, positive moduli, and at
least two inputs of a sum or a product. -/
def Admissible (e : Engine ℚ) : Call → Prop
  | .bootstrap _ key => ∀ k ∈ key, k.scheme = e.scheme
  | .modulusSwitch _ source target => 0 < source ∧ 0 < target
  | .addMany inputs | .multiplyChain inputs => 2 ≤ inputs.length
  | _ => True

variable {call : Call}

theorem full_pair (full : ∀ c ∈ [a, b], c.Full) : a.Full ∧ b.Full := ⟨full a (by simp), full b (by simp)⟩

/-- The operations that do not reset noise, where they are admissible. -/
theorem covers (amplifying : e.Amplifying) (full : ∀ c ∈ call.operands, c.Full) (admissible : call.Admissible e)
    (keeps : call.resets = false) : ∃ r, Covers call.operands (call.run e) r := by
  cases call with
  | add a b =>
    obtain ⟨ha, hb⟩ := full_pair full
    exact covers_add amplifying ha hb
  | subtract a b =>
    obtain ⟨ha, hb⟩ := full_pair full
    exact covers_subtract amplifying ha hb
  | multiply a b =>
    obtain ⟨ha, hb⟩ := full_pair full
    exact covers_multiply amplifying ha hb
  | negate a => exact covers_negate amplifying (List.forall_mem_singleton.1 full)
  | rotate a amount => exact covers_rotate amplifying (List.forall_mem_singleton.1 full) amount
  | relinearize a => exact covers_relinearize (List.forall_mem_singleton.1 full)
  | bootstrap a key => cases keeps
  | modulusSwitch a source target => cases keeps
  | addMany inputs =>
    obtain ⟨a, b, rest, rfl⟩ := exists_cons_cons_of_two_le admissible
    have all := List.forall_mem_cons.1 full
    have folded := covers_foldlM (fun a b => covers_add amplifying) all.1 all.2
    rw [← sumFrom_eq_foldlM] at folded
    exact folded
  | multiplyChain inputs =>
    obtain ⟨a, b, rest, rfl⟩ := exists_cons_cons_of_two_le admissible
    have all := List.forall_mem_cons.1 full
    have folded := covers_foldlM (fun a b => covers_multiplyStep amplifying) all.1 all.2
    rw [← productFrom_eq_foldlM] at folded
    exact folded

/-- Where an operation is not admissible, that is why it fails. -/
theorem refused (not : ¬ call.Admissible e) : ∃ fault, call.run e = .error fault ∧ ∀ f, fault ≠ .ciphertext f := by
  cases call with
  | bootstrap a key =>
    cases key with
    | none => exact absurd (fun k hk => nomatch hk) not
    | some k =>
      have foreign : k.scheme ≠ e.scheme := fun same => not fun _ hk => Option.mem_some.1 hk ▸ same
      exact ⟨_, if_neg foreign, fun f => nofun⟩
  | modulusSwitch a source target =>
    have nonpositive : source ≤ 0 ∨ target ≤ 0 := by
      simp only [Admissible] at not
      omega
    exact ⟨_, if_pos nonpositive, fun f => nofun⟩
  | addMany inputs =>
    match inputs, not with
    | [], _ | [_], _ => exact ⟨_, rfl, fun f => nofun⟩
    | _ :: _ :: _, not => exact absurd (by simp [Admissible]) not
  | multiplyChain inputs =>
    match inputs, not with
    | [], _ | [_], _ => exact ⟨_, rfl, fun f => nofun⟩
    | _ :: _ :: _, not => exact absurd (by simp [Admissible]) not
  | _ => exact absurd trivial not

/-- Every operation on full ciphertexts comes to a full one, unless it is not admissible. -/
theorem closed (amplifying : e.Amplifying) (full : ∀ c ∈ call.operands, c.Full) (admissible : call.Admissible e) :
    ∃ r, call.run e = .ok r ∧ r.Full ∧ (call.resets = false → ∀ c ∈ call.operands, c.noise ≤ r.noise) := by
  cases resets : call.resets with
  | false =>
    obtain ⟨r, covers⟩ := covers amplifying full admissible resets
    exact ⟨r, covers.told, covers.full, fun _ => covers.louder⟩
  | true =>
    -- Only two operations reset noise.
    cases call with
    | bootstrap a key =>
      obtain ⟨r, told, refreshed⟩ := full_bootstrap (List.forall_mem_singleton.1 full) admissible
      exact ⟨r, told, refreshed, nofun⟩
    | modulusSwitch a source target =>
      obtain ⟨r, told, rescaled⟩ := full_modulusSwitch (List.forall_mem_singleton.1 full) admissible.1 admissible.2
      exact ⟨r, told, rescaled, nofun⟩
    | _ => cases resets

/-- What an operation on full ciphertexts comes to, admissible or not. -/
theorem closed_of_ok (amplifying : e.Amplifying) (full : ∀ c ∈ call.operands, c.Full) (told : call.run e = .ok r) :
    r.Full ∧ (call.resets = false → ∀ c ∈ call.operands, c.noise ≤ r.noise) := by
  by_cases admissible : call.Admissible e
  · obtain ⟨r', told', closed⟩ := closed amplifying full admissible
    obtain rfl : r' = r := Except.ok.inj (told'.symm.trans told)
    exact closed
  · obtain ⟨fault, failed, -⟩ := refused admissible
    rw [failed] at told
    cases told

end Call

/-! ## 4. Computations -/

/-- What can be computed from given ciphertexts, by any number of operations. -/
inductive Reached (e : Engine ℚ) (given : List (Ciphertext ℚ)) : Ciphertext ℚ → Prop
  | given {c : Ciphertext ℚ} (mem : c ∈ given) : Reached e given c
  | call (call : Call) {r : Ciphertext ℚ} (operands : ∀ c ∈ call.operands, Reached e given c)
      (told : call.run e = .ok r) : Reached e given r

/-- What a ciphertext goes into, directly or through results that it went into, where nothing on the way from it
refreshes or rescales. -/
inductive GoesInto (e : Engine ℚ) (given : List (Ciphertext ℚ)) (c : Ciphertext ℚ) : Ciphertext ℚ → Prop
  | itself : GoesInto e given c c
  | call (call : Call) {d r : Ciphertext ℚ} (before : GoesInto e given c d) (operand : d ∈ call.operands)
      (operands : ∀ x ∈ call.operands, e.Reached given x) (keeps : call.resets = false)
      (told : call.run e = .ok r) : GoesInto e given c r

variable {given : List (Ciphertext ℚ)}

theorem Reached.full (amplifying : e.Amplifying) (full : ∀ c ∈ given, c.Full) (reached : e.Reached given c) :
    c.Full := by
  induction reached with
  | given mem => exact full _ mem
  | call _ _ told ih => exact (Call.closed_of_ok amplifying ih told).1

theorem GoesInto.noise_le (amplifying : e.Amplifying) (full : ∀ c ∈ given, c.Full) (into : e.GoesInto given c r) :
    c.noise ≤ r.noise := by
  induction into with
  | itself => exact le_rfl
  | @call _ d _ _ operand operands keeps told ih =>
    have all := fun x mem => Reached.full amplifying full (operands x mem)
    exact ih.trans ((Call.closed_of_ok amplifying all told).2 keeps d operand)

/-- On full ciphertexts, no operation of an engine whose factors are at least one hands out a ciphertext that is
refused as invalid: an admissible one comes to a full ciphertext, and another one is refused for what it is. Unless
it refreshes or rescales, its result is at least as noisy as each operand. So is all that is computed from a
ciphertext without refreshing or rescaling. The registered schemes have such engines. -/
theorem algebra_closed :
    (∀ s, (Parameters.registered s).engine.exactly.Amplifying) ∧
    ∀ e : Engine ℚ, e.Amplifying →
      (∀ call : Call, (∀ c ∈ call.operands, c.Full) →
        (call.Admissible e → ∃ r, call.run e = .ok r) ∧ (∀ f, call.run e ≠ .error (.ciphertext f)) ∧
          ∀ r, call.run e = .ok r → r.Full ∧ (call.resets = false → ∀ c ∈ call.operands, c.noise ≤ r.noise)) ∧
      ∀ given : List (Ciphertext ℚ), (∀ c ∈ given, c.Full) →
        ∀ c, (e.Reached given c → c.Full) ∧ ∀ r, e.GoesInto given c r → c.noise ≤ r.noise := by
  refine ⟨amplifying_registered, fun e amplifying => ⟨fun call full => ⟨fun admissible => ?_, fun f failed => ?_,
    fun r told => Call.closed_of_ok amplifying full told⟩, fun given full c =>
      ⟨Reached.full amplifying full, fun r => GoesInto.noise_le amplifying full⟩⟩⟩
  · obtain ⟨r, told, -⟩ := Call.closed amplifying full admissible
    exact ⟨r, told⟩
  · by_cases admissible : call.Admissible e
    · obtain ⟨r, told, -⟩ := Call.closed amplifying full admissible
      rw [told] at failed
      cases failed
    · obtain ⟨fault, refused, other⟩ := Call.refused admissible
      rw [refused] at failed
      exact other f (Except.error.inj failed)

/-- A fresh ciphertext of one byte. -/
def freshByte : Ciphertext ℚ := ⟨[0x2A], base, 0, freshSize, false, false⟩

/-- The third power of a fresh ciphertext, negated. -/
theorem algebra_closed_cube : ∃ cube r,
    (Parameters.registered .tfhe).engine.exactly.multiplyChain [freshByte, freshByte, freshByte] = .ok cube ∧
      (Parameters.registered .tfhe).engine.exactly.negate cube = .ok r ∧ r.Full ∧ freshByte.noise ≤ r.noise := by
  obtain ⟨amplifying, closed⟩ := algebra_closed
  obtain ⟨closed, computed⟩ := closed _ (amplifying .tfhe)
  have full : ∀ c ∈ [freshByte, freshByte, freshByte], c.Full := by
    intro c mem
    obtain rfl : c = freshByte := by simpa using mem
    exact ⟨le_rfl, le_rfl⟩
  obtain ⟨made, -, sound⟩ := closed (.multiplyChain [freshByte, freshByte, freshByte]) full
  obtain ⟨cube, product⟩ := made (by decide : 2 ≤ 3)
  obtain ⟨made, -, -⟩ := closed (.negate cube) (List.forall_mem_singleton.2 (sound cube product).1)
  obtain ⟨r, negated⟩ := made trivial
  -- The cube is computed from the fresh ciphertext, and its negative from the cube.
  have given : ∀ c ∈ [freshByte, freshByte, freshByte],
      Reached (Parameters.registered .tfhe).engine.exactly [freshByte, freshByte, freshByte] c := fun _ => .given
  have reached := List.forall_mem_singleton.2
    (Reached.call (.multiplyChain [freshByte, freshByte, freshByte]) given product)
  have within := GoesInto.call (.multiplyChain [freshByte, freshByte, freshByte]) .itself List.mem_cons_self given rfl
    product
  have into := GoesInto.call (.negate cube) within List.mem_cons_self reached rfl negated
  obtain ⟨-, louder⟩ := computed _ full freshByte
  exact ⟨cube, r, product, negated, (computed _ full r).1 (.call (.negate cube) reached negated), louder r into⟩

end Engine

end SealedFields
