import Mathlib.Data.Int.ModEq
import Mathlib.Data.List.Rotate
import SealedFields.Proofs.Ciphertext.Fresh
import SealedFields.Proofs.Engine.Budget

/-!
# Programs that leave the plaintext

Negation and rotation act on payloads like a sign and a cyclic shift, so that of a whole program only the
number of negations and the sum of the rotations count. If these leave the payload as it was, a last
bootstrap gives back the noise it was encrypted with, and with it the keystream that covers the plaintext.
-/

namespace SealedFields

/-! ## 1. The laws of negation and rotation -/

namespace Payload

variable {a : Bytes} {amount : Int}

theorem negate_negate (a : Bytes) : negate (negate a) = a := by
  have twice : ((fun b : UInt8 => 0 - b) ∘ fun b => 0 - b) = id := by
    funext b
    show 0 - (0 - b) = b
    rw [UInt8.zero_sub, UInt8.zero_sub, UInt8.neg_neg]
  rw [negate, negate, List.map_map, twice, List.map_id]

theorem rotate_nil (amount : Int) : rotate amount [] = [] := by
  rw [rotate, List.drop_nil, List.take_nil]
  rfl

/-- A rotation to the left by any number that is congruent to the negative of the amount. -/
theorem rotate_eq {k : Nat} (congruent : (a.length : Int) ∣ k + amount) : rotate amount a = a.rotate k := by
  obtain rfl | nonempty := eq_or_ne a []
  · rw [rotate_nil, List.rotate_nil]
  have positive : (0 : Int) < a.length := Int.natCast_pos.2 (List.length_pos_iff.2 nonempty)
  have shift : (((amount % a.length).toNat : Nat) : Int) = amount % a.length :=
    Int.toNat_of_nonneg (Int.emod_nonneg _ positive.ne')
  have small : (amount % a.length).toNat ≤ a.length := by
    have := Int.emod_lt_of_pos amount positive
    omega
  have split : rotate amount a = a.rotate (a.length - (amount % a.length).toNat) :=
    (List.rotate_eq_drop_append_take (Nat.sub_le _ _)).symm
  -- Both numbers are the negative of the amount, up to multiples of the length.
  have same : a.length - (amount % a.length).toNat ≡ k [MOD a.length] := by
    refine (Nat.modEq_iff_dvd).2 ?_
    have difference : (k : Int) - ((a.length - (amount % a.length).toNat : Nat) : Int)
        = k + amount - a.length * (1 + amount / a.length) := by
      have := Int.mul_ediv_add_emod amount a.length
      rw [Nat.cast_sub small, shift, mul_add]
      omega
    rw [difference]
    exact Int.dvd_sub congruent (Int.dvd_mul_right _ _)
  rw [split, ← List.rotate_mod, same, List.rotate_mod]

theorem exists_congruent {n : Nat} (positive : (0 : Int) < n) (x : Int) : ∃ k : Nat, (n : Int) ∣ k + x := by
  refine ⟨(-x % n).toNat, ?_⟩
  rw [Int.toNat_of_nonneg (Int.emod_nonneg _ positive.ne'), ← sub_neg_eq_add]
  exact (Int.mod_modEq _ _).symm.dvd

theorem rotate_rotate (x y : Int) (a : Bytes) : rotate x (rotate y a) = rotate (y + x) a := by
  obtain rfl | nonempty := eq_or_ne a []
  · rw [rotate_nil, rotate_nil, rotate_nil]
  have positive : (0 : Int) < a.length := Int.natCast_pos.2 (List.length_pos_iff.2 nonempty)
  obtain ⟨k, hk⟩ := exists_congruent positive y
  obtain ⟨l, hl⟩ := exists_congruent positive x
  have turned : ((a.rotate k).length : Int) ∣ l + x := by
    rw [List.length_rotate]
    exact hl
  have both : (a.length : Int) ∣ ((k + l : Nat) : Int) + (y + x) := by
    have sum := Int.dvd_add hk hl
    rw [add_add_add_comm, ← Nat.cast_add] at sum
    exact sum
  rw [rotate_eq hk, rotate_eq turned, rotate_eq both, List.rotate_rotate]

theorem rotate_of_dvd (whole : (a.length : Int) ∣ amount) : rotate amount a = a := by
  rw [rotate_eq (k := 0), List.rotate_zero]
  simpa using whole

theorem rotate_negate (amount : Int) (a : Bytes) : rotate amount (negate a) = negate (rotate amount a) := by
  rw [rotate, length_negate, rotate, negate, negate, List.map_append, List.map_drop, List.map_take]

/-- Negating so often is negating before or after a rotation. -/
theorem iterate_negate_rotate (n : Nat) (amount : Int) (a : Bytes) :
    negate^[n] (rotate amount a) = rotate amount (negate^[n] a) :=
  (Function.Commute.iterate_left (fun b => (rotate_negate amount b).symm) n) a

end Payload

/-! ## 2. Programs -/

namespace Engine

open NoiseArithmetic (base)
open Number (AtLeast)

/-- An operation on one ciphertext that does not compute with its plaintext. -/
inductive Step where
  | negate
  | rotate (amount : Int)
  | relinearize
  | bootstrap (key : Option BootstrappingKey)

namespace Step

def run (e : Engine Float) : Step → Ciphertext Float → Computed Float (Ciphertext Float)
  | .negate, c => e.negate c
  | .rotate amount, c => e.rotate c amount
  | .relinearize, c => Engine.relinearize c
  | .bootstrap key, c => e.bootstrap c key

def isNegate : Step → Bool
  | .negate => true
  | _ => false

def amount : Step → Int
  | .rotate amount => amount
  | _ => 0

end Step

def runSteps (e : Engine Float) (steps : List Step) (c : Ciphertext Float) : Computed Float (Ciphertext Float) :=
  steps.foldlM (fun c step => step.run e c) c

def negations (steps : List Step) : Nat := steps.countP Step.isNegate

def rotation (steps : List Step) : Int := (steps.map Step.amount).sum

theorem negations_cons_of_not {step : Step} (other : step.isNegate = false) (steps : List Step) :
    negations (step :: steps) = negations steps :=
  List.countP_cons_of_neg (Bool.not_eq_true _ ▸ other)

/-- A bootstrapping key that the engine takes: none, or one of its scheme. -/
def Takes (e : Engine Float) (key : Option BootstrappingKey) : Prop := ∀ k ∈ key, k.scheme = e.scheme

variable {e : Engine Float} {steps : List Step} {step : Step} {c d : Ciphertext Float}
  {key : Option BootstrappingKey}

theorem bootstrap_of_takes (takes : e.Takes key) (c : Ciphertext Float) :
    e.bootstrap c key = handOut { c with noise := base, depth := 0, bootstrapped := true } := by
  cases key with
  | none => rfl
  | some k => exact if_pos (takes k rfl)

theorem takes_of_bootstrap (h : e.bootstrap c key = .ok d) : e.Takes key := by
  intro k hk
  obtain rfl := Option.mem_def.1 hk
  by_contra other
  rw [bootstrap, if_neg other] at h
  cases h

theorem base_not_less_least : NoiseArithmetic.less (base : Float) NoiseArithmetic.least = false := by
  decide

theorem valid_refreshed (valid : c.Valid) :
    ({ c with noise := base, depth := 0, bootstrapped := true } : Ciphertext Float).Valid :=
  ⟨base_not_less_least, valid.2⟩

/-- What a step makes of a payload. -/
def Step.act (step : Step) : Bytes → Bytes :=
  match step with
  | .negate => Payload.negate
  | .rotate amount => Payload.rotate amount
  | _ => id

theorem Step.run_eq_ok (h : step.run e c = .ok d) : d.Valid ∧ d.payload = step.act c.payload := by
  cases step with
  | negate =>
    obtain ⟨valid, rfl⟩ := handOut_eq_ok_iff.1 h
    exact ⟨valid, rfl⟩
  | rotate amount =>
    obtain ⟨valid, rfl⟩ := handOut_eq_ok_iff.1 h
    exact ⟨valid, rfl⟩
  | relinearize =>
    obtain ⟨valid, rfl⟩ := handOut_eq_ok_iff.1 h
    exact ⟨valid, rfl⟩
  | bootstrap key =>
    rw [run, bootstrap_of_takes (takes_of_bootstrap h)] at h
    obtain ⟨valid, rfl⟩ := handOut_eq_ok_iff.1 h
    exact ⟨valid, rfl⟩

/-- Of a program only the number of negations and the sum of the rotations count. -/
theorem runSteps_eq_ok (valid : c.Valid) (h : e.runSteps steps c = .ok d) :
    d.Valid ∧ d.payload = Payload.rotate (rotation steps) (Payload.negate^[negations steps] c.payload) := by
  -- Induction on the program; what a step does is carried behind what is left to do.
  induction steps generalizing c with
  | nil =>
    obtain rfl := Except.ok.inj h
    exact ⟨valid, (Payload.rotate_of_dvd (Int.dvd_zero _)).symm⟩
  | cons step steps ih =>
    obtain ⟨c', first, rest⟩ := Outcome.bind_eq_ok_iff.1 h
    obtain ⟨valid', payload⟩ := Step.run_eq_ok first
    obtain ⟨valid, payload'⟩ := ih valid' rest
    refine ⟨valid, ?_⟩
    rw [payload', payload]
    have split : rotation (step :: steps) = step.amount + rotation steps := List.sum_cons
    rw [split]
    cases step with
    | negate =>
      have count : negations (.negate :: steps) = negations steps + 1 := List.countP_cons_of_pos rfl
      rw [count, Function.iterate_succ_apply]
      exact congrArg (Payload.rotate · _) (zero_add _).symm
    | rotate amount =>
      rw [negations_cons_of_not rfl, Step.act, Payload.iterate_negate_rotate, Payload.rotate_rotate]
      rfl
    | relinearize =>
      rw [negations_cons_of_not rfl]
      exact congrArg (Payload.rotate · _) (zero_add _).symm
    | bootstrap key =>
      rw [negations_cons_of_not rfl]
      exact congrArg (Payload.rotate · _) (zero_add _).symm

/-! ## 3. Programs that complete -/

/-- The noise of a fresh ciphertext after any negations and rotations: as long as it is below four, it is one of
a few levels. -/
def Grown (x : Float) : Prop :=
  x = base ∨ x = (base : Float) * 1.1 ∨ x = (base : Float) * 1.2 ∨ x = (base : Float) * 1.1 * 1.1 ∨ AtLeast 4 x

theorem Grown.negate {x : Float} (grown : Grown x) : Grown (x * 1.1) := by
  have factor : AtLeast 1 1.1 := by decide
  obtain rfl | rfl | rfl | rfl | large := grown
  · exact .inr (.inl rfl)
  · exact .inr (.inr (.inr (.inl rfl)))
  · exact .inr (.inr (.inr (.inr (by decide))))
  · exact .inr (.inr (.inr (.inr (by decide))))
  · exact .inr (.inr (.inr (.inr (large.mul factor (by decide) (by decide) (by decide)))))

theorem Grown.rotate {x : Float} (grown : Grown x) : Grown (x * 1.2) := by
  have factor : AtLeast 1 1.2 := by decide
  obtain rfl | rfl | rfl | rfl | large := grown
  · exact .inr (.inr (.inl rfl))
  · exact .inr (.inr (.inr (.inr (by decide))))
  · exact .inr (.inr (.inr (.inr (by decide))))
  · exact .inr (.inr (.inr (.inr (by decide))))
  · exact .inr (.inr (.inr (.inr (large.mul factor (by decide) (by decide) (by decide)))))

theorem leastNoise_lacks : ¬ AtLeast 4 (NoiseArithmetic.least : Float) := by decide

theorem Grown.not_less_least {x : Float} (grown : Grown x) : NoiseArithmetic.less x NoiseArithmetic.least = false := by
  obtain rfl | rfl | rfl | rfl | large := grown
  · exact base_not_less_least
  · decide
  · decide
  · decide
  · exact decide_eq_false (large.not_lt (by decide) leastNoise_lacks)

/-- What a fresh ciphertext is after any part of a program. -/
structure Sturdy (c : Ciphertext Float) : Prop where
  grown : Grown c.noise
  size : Ciphertext.freshSize ≤ c.size

theorem Sturdy.valid (sturdy : Sturdy c) : c.Valid := ⟨sturdy.grown.not_less_least, sturdy.size⟩

/-- A step completes, unless it is a bootstrap with a key of another scheme. -/
theorem Sturdy.exists_run (standard : e.growth = .standard) (sturdy : Sturdy c)
    (takes : ∀ key, step = .bootstrap key → e.Takes key) : ∃ d, step.run e c = .ok d ∧ Sturdy d := by
  cases step with
  | negate =>
    have after : Sturdy { c with payload := Payload.negate c.payload, noise := c.noise * e.growth.add } := by
      rw [standard]
      exact ⟨sturdy.grown.negate, sturdy.size⟩
    exact ⟨_, handOut_of_valid after.valid, after⟩
  | rotate amount =>
    have after : Sturdy { c with payload := Payload.rotate amount c.payload, noise := c.noise * e.growth.rotate } := by
      rw [standard]
      exact ⟨sturdy.grown.rotate, sturdy.size⟩
    exact ⟨_, handOut_of_valid after.valid, after⟩
  | relinearize =>
    have after : Sturdy { c with size := Ciphertext.freshSize, relinearized := true } :=
      ⟨sturdy.grown, Nat.le_refl _⟩
    exact ⟨_, handOut_of_valid after.valid, after⟩
  | bootstrap key =>
    have after : Sturdy { c with noise := base, depth := 0, bootstrapped := true } := ⟨.inl rfl, sturdy.size⟩
    rw [Step.run, bootstrap_of_takes (takes key rfl)]
    exact ⟨_, handOut_of_valid after.valid, after⟩

/-- A program completes exactly if the engine takes all of its bootstrapping keys. -/
theorem exists_runSteps_iff (standard : e.growth = .standard) (sturdy : Sturdy c) :
    (∃ d, e.runSteps steps c = .ok d) ↔ ∀ key, .bootstrap key ∈ steps → e.Takes key := by
  induction steps generalizing c with
  | nil => exact ⟨fun _ _ h => absurd h List.not_mem_nil, fun _ => ⟨c, rfl⟩⟩
  | cons step steps ih =>
    constructor
    · rintro ⟨d, h⟩ key mem
      obtain ⟨c', first, rest⟩ := Outcome.bind_eq_ok_iff.1 h
      have takes : ∀ key, step = .bootstrap key → e.Takes key := by
        rintro key rfl
        exact takes_of_bootstrap first
      obtain ⟨c'', again, sturdy'⟩ := sturdy.exists_run standard takes
      obtain rfl := Except.ok.inj (first.symm.trans again)
      obtain here | later := List.mem_cons.1 mem
      · exact takes key here.symm
      · exact (ih sturdy').1 ⟨d, rest⟩ key later
    · intro takes
      obtain ⟨c', first, sturdy'⟩ := sturdy.exists_run standard fun key here => takes key (here ▸ .head _)
      obtain ⟨d, rest⟩ := (ih sturdy').2 fun key later => takes key (.tail _ later)
      exact ⟨d, Outcome.bind_eq_ok_iff.2 ⟨c', first, rest⟩⟩

/-! ## 4. Programs that leave the payload -/

/-- An even number of negations, and rotations by a multiple of a payload's length. -/
structure Neutral (length : Nat) (steps : List Step) : Prop where
  negations : Even (negations steps)
  rotation : (length : Int) ∣ rotation steps

theorem payload_of_neutral (valid : c.Valid) (neutral : Neutral c.payload.length steps)
    (h : e.runSteps steps c = .ok d) : d.Valid ∧ d.payload = c.payload := by
  obtain ⟨valid, payload⟩ := runSteps_eq_ok valid h
  obtain ⟨k, even⟩ := neutral.negations
  have undone : Payload.negate^[negations steps] c.payload = c.payload := by
    rw [even, ← two_mul, Function.Involutive.iterate_two_mul Payload.negate_negate]
    rfl
  rw [undone, Payload.rotate_of_dvd neutral.rotation] at payload
  exact ⟨valid, payload⟩

end Engine

theorem Parameters.growth_registered (s : Scheme) : (registered s).engine.growth = .standard := by
  cases s <;> rfl

namespace Codec

variable {plaintext : Bytes} {keys : KeyPair} {c d b : Ciphertext Float}

theorem exists_encode (plaintext seed : Bytes) : ∃ c, encode plaintext baseNoise seed = .ok c := by
  have high : ¬ baseNoise < baseNoise := by decide
  rw [encode, if_neg high]
  refine ⟨_, Outcome.mapError_eq_ok_iff.2 (Ciphertext.checked_eq_ok_iff.2 ⟨⟨?_, ?_⟩, rfl⟩)⟩
  · exact Engine.base_not_less_least
  · exact Nat.le_refl _

/-- Every registered scheme encrypts, and the payload is as long as the plaintext and the tag. -/
theorem exists_encrypt (s : Scheme) (plaintext : Bytes) (keys : KeyPair) :
    ∃ c, encrypt (.registered s) plaintext keys = .ok c ∧ Engine.Sturdy c ∧
      c.payload.length = plaintext.length + tagLength := by
  obtain ⟨c, encoded⟩ := exists_encode plaintext (keystreamSeed keys.publicKey)
  obtain ⟨⟨payload, noise⟩, valid, -⟩ := encode_eq_ok encoded
  refine ⟨c, ?_, ⟨.inl noise, valid.2⟩, ?_⟩
  · rw [encrypt, noiseDeviation_registered]
    exact encoded
  · rw [payload, List.length_append, Keystream.length_cover, length_tag]

/-- What has the payload and the noise of a fresh ciphertext is decrypted like it. -/
theorem decrypt_of_same (s : Scheme) (encrypted : encrypt (.registered s) plaintext keys = .ok c)
    (payload : d.payload = c.payload) (noise : d.noise = baseNoise) (verify : Bool) :
    decrypt d keys verify = .ok plaintext := by
  obtain ⟨⟨covered, deviation⟩, -⟩ := encode_eq_ok encrypted
  have encodes : Encodes plaintext (Parameters.registered s).noiseDeviation (keystreamSeed keys.publicKey) d :=
    ⟨payload.trans covered, noise.trans (noiseDeviation_registered s).symm⟩
  exact decode_encodes encodes verify

end Codec

/-- Every registered scheme encrypts every plaintext. A program of negations, rotations, relinearizations and
bootstraps completes on the ciphertext exactly if its bootstrapping keys are of the scheme; if it negates an
even number of times and rotates by a multiple of the payload's length, the plaintext is decrypted after one
more bootstrap. -/
theorem neutral_program_decrypts (s : Scheme) (keys : KeyPair) (plaintext : Bytes) :
    ∃ c, Codec.encrypt (.registered s) plaintext keys = .ok c ∧
      (∀ steps, (∃ d, (Parameters.registered s).engine.runSteps steps c = .ok d) ↔
        ∀ key, .bootstrap key ∈ steps → (Parameters.registered s).engine.Takes key) ∧
      ∀ steps d, (Parameters.registered s).engine.runSteps steps c = .ok d →
        Even (Engine.negations steps) → ((plaintext.length + 32 : Nat) : Int) ∣ Engine.rotation steps →
          ∀ key, (Parameters.registered s).engine.Takes key → ∃ b,
            (Parameters.registered s).engine.bootstrap d key = .ok b ∧ Codec.decrypt b keys true = .ok plaintext := by
  obtain ⟨c, encrypted, fresh, length⟩ := Codec.exists_encrypt s plaintext keys
  refine ⟨c, encrypted, fun steps => Engine.exists_runSteps_iff (Parameters.growth_registered s) fresh, ?_⟩
  intro steps d ran even whole key takes
  have neutral : Engine.Neutral c.payload.length steps := ⟨even, length ▸ whole⟩
  obtain ⟨valid, payload⟩ := Engine.payload_of_neutral fresh.valid neutral ran
  rw [Engine.bootstrap_of_takes takes]
  refine ⟨_, Engine.handOut_eq_ok_iff.2 ⟨Engine.valid_refreshed valid, rfl⟩, ?_⟩
  refine Codec.decrypt_of_same s encrypted ?_ rfl true
  exact payload

/-- Two negations and ten times around, refreshed on the way. -/
def roundabout : List Engine.Step :=
  [.negate, .rotate (-5), .bootstrap none, .relinearize, .negate, .rotate 375]

theorem neutral_program_decrypts_roundabout : ∃ c d b,
    Codec.encrypt (.registered .tfhe) [1, 2, 3, 4, 5] ⟨[7], [8], [9], .tfhe⟩ = .ok c ∧
      (Parameters.registered .tfhe).engine.runSteps roundabout c = .ok d ∧
      (Parameters.registered .tfhe).engine.bootstrap d none = .ok b ∧
      Codec.decrypt b ⟨[7], [8], [9], .tfhe⟩ true = .ok [1, 2, 3, 4, 5] := by
  have taken : ∀ key, .bootstrap key ∈ roundabout → (Parameters.registered .tfhe).engine.Takes key := by
    intro key mem k hk
    obtain rfl : key = none := by simpa [roundabout] using mem
    cases hk
  have even : Even (Engine.negations roundabout) := ⟨1, rfl⟩
  have whole : ((([1, 2, 3, 4, 5] : Bytes).length + 32 : Nat) : Int) ∣ Engine.rotation roundabout := ⟨10, rfl⟩
  obtain ⟨c, encrypted, completes, decrypts⟩ := neutral_program_decrypts .tfhe ⟨[7], [8], [9], .tfhe⟩ [1, 2, 3, 4, 5]
  obtain ⟨d, ran⟩ := (completes roundabout).2 taken
  obtain ⟨b, refreshed, decrypted⟩ := decrypts roundabout d ran even whole none fun _ h => nomatch h
  exact ⟨c, d, b, encrypted, ran, refreshed, decrypted⟩

end SealedFields
