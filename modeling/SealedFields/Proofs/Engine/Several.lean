import SealedFields.Proofs.Engine.Exact
import SealedFields.Proofs.Engine.Payloads

/-!
# Sums and products of several

The account of a sum or a product of any number of inputs in closed form. Both are loops that check every result on
the way. None of these is too small, so that a loop comes to what its unchecked steps come to, unless the noise of a
result on the way is too low.
-/

namespace SealedFields

namespace Engine

open NoiseArithmetic (less least)
open Ciphertext (freshSize maxSize)

variable {ν : Type} [NoiseArithmetic ν] {e : Engine ν} {a b c r first : Ciphertext ν} {rest : List (Ciphertext ν)}

/-! ## 1. A step before it is checked -/

/-- The sum of two. -/
def sumOfTwo (e : Engine ν) (a b : Ciphertext ν) : Ciphertext ν where
  payload := Payload.add a.payload b.payload
  noise := NoiseArithmetic.add (NoiseArithmetic.add a.noise b.noise) e.growth.add
  depth := max a.depth b.depth
  size := a.size
  bootstrapped := false
  relinearized := false

/-- The product of two, relinearized. -/
def productOfTwo (e : Engine ν) (a b : Ciphertext ν) : Ciphertext ν where
  payload := Payload.mul a.payload b.payload
  noise := NoiseArithmetic.mul (NoiseArithmetic.mul a.noise b.noise) e.growth.multiply
  depth := max a.depth b.depth + 1
  size := freshSize
  bootstrapped := false
  relinearized := true

theorem handOut_of_low (low : less c.noise least = true) : handOut c = .error (.ciphertext (.noiseTooLow c.noise)) := by
  unfold handOut Ciphertext.checked
  rw [if_pos low]
  rfl

/-- Two factors are too large together to be multiplied further, so that every product is relinearized. -/
theorem multiplyStep_eq_handOut (ha : freshSize ≤ a.size) (hb : freshSize ≤ b.size) :
    e.multiplyStep a b = handOut (e.productOfTwo a b) := by
  let product : Ciphertext ν := { e.productOfTwo a b with size := a.size + b.size, relinearized := false }
  have made : e.multiply a b = handOut product := rfl
  have large : maxSize < product.size := by
    show 3 < a.size + b.size
    unfold freshSize at ha hb
    omega
  unfold multiplyStep
  rw [made]
  -- Both are checked for the same noise.
  cases noise : less (e.productOfTwo a b).noise least with
  | true =>
    rw [handOut_of_low noise, handOut_of_low (c := product) noise]
    rfl
  | false =>
    rw [handOut_of_valid (c := product) ⟨noise, ha.trans (Nat.le_add_right _ _)⟩]
    exact if_pos (decide_eq_true large)

/-! ## 2. Loops of checked steps -/

/-- The checked step `f` hands out what the unchecked one makes, and that is never too small. -/
structure HandsOut (f : Ciphertext ν → Ciphertext ν → Computed ν (Ciphertext ν))
    (step : Ciphertext ν → Ciphertext ν → Ciphertext ν) : Prop where
  told : ∀ {a b}, freshSize ≤ a.size → freshSize ≤ b.size → f a b = handOut (step a b)
  size : ∀ {a b}, freshSize ≤ a.size → freshSize ≤ (step a b).size

theorem handsOut_add (e : Engine ν) : HandsOut e.add e.sumOfTwo := ⟨fun _ _ => rfl, id⟩

theorem handsOut_multiplyStep (e : Engine ν) : HandsOut e.multiplyStep e.productOfTwo :=
  ⟨multiplyStep_eq_handOut, fun _ => le_rfl⟩

namespace HandsOut

variable {f : Ciphertext ν → Ciphertext ν → Computed ν (Ciphertext ν)}
  {step : Ciphertext ν → Ciphertext ν → Ciphertext ν} (handsOut : HandsOut f step)
include handsOut

/-- A loop of checked steps has the result of the unchecked ones, provided that no result on the way has too little
noise. -/
theorem foldlM_eq_ok_iff (size : freshSize ≤ first.size) (sizes : ∀ c ∈ rest, freshSize ≤ c.size) :
    rest.foldlM f first = .ok r ↔
      (∀ k < rest.length, less ((rest.take (k + 1)).foldl step first).noise least = false) ∧
        rest.foldl step first = r := by
  induction rest generalizing first with
  | nil => simp [pure, Except.pure]
  | cons b rest ih =>
    rw [List.forall_mem_cons] at sizes
    have next : freshSize ≤ (step first b).size := handsOut.size size
    rw [List.foldlM_cons, handsOut.told size sizes.1, Outcome.bind_eq_ok_iff, List.length_cons, Nat.forall_lt_succ_left]
    constructor
    · rintro ⟨c, checked, looped⟩
      obtain ⟨⟨enough, -⟩, rfl⟩ := handOut_eq_ok_iff.1 checked
      obtain ⟨later, told⟩ := (ih next sizes.2).1 looped
      exact ⟨⟨enough, later⟩, told⟩
    · rintro ⟨⟨enough, later⟩, told⟩
      exact ⟨_, handOut_of_valid ⟨enough, next⟩, (ih next sizes.2).2 ⟨later, told⟩⟩

end HandsOut

/-! ## 3. The unchecked loops in closed form -/

/-- The noise of a sum of several. -/
def sumNoise (e : Engine ν) (first : Ciphertext ν) (rest : List (Ciphertext ν)) : ν :=
  rest.foldl (fun x c => NoiseArithmetic.add (NoiseArithmetic.add x c.noise) e.growth.add) first.noise

/-- The noise of a product of several. -/
def productNoise (e : Engine ν) (first : Ciphertext ν) (rest : List (Ciphertext ν)) : ν :=
  rest.foldl (fun x c => NoiseArithmetic.mul (NoiseArithmetic.mul x c.noise) e.growth.multiply) first.noise

omit [NoiseArithmetic ν] in
/-- A loop of some steps ends with a step. -/
theorem exists_last_step (step : Ciphertext ν → Ciphertext ν → Ciphertext ν) (first : Ciphertext ν)
    (several : rest ≠ []) : ∃ a b, rest.foldl step first = step a b := by
  rw [← List.dropLast_append_getLast several, List.foldl_append]
  exact ⟨_, _, rfl⟩

theorem noise_foldl_sumOfTwo : (rest.foldl e.sumOfTwo first).noise = e.sumNoise first rest :=
  (List.foldl_hom Ciphertext.noise fun _ _ => rfl).symm

theorem noise_foldl_productOfTwo : (rest.foldl e.productOfTwo first).noise = e.productNoise first rest :=
  (List.foldl_hom Ciphertext.noise fun _ _ => rfl).symm

theorem size_foldl_sumOfTwo : (rest.foldl e.sumOfTwo first).size = first.size := by
  induction rest generalizing first with
  | nil => rfl
  | cons b rest ih => exact ih

theorem depth_foldl_sumOfTwo :
    (rest.foldl e.sumOfTwo first).depth = ((first :: rest).map (·.depth)).foldr max 0 := by
  induction rest generalizing first with
  | nil => exact (Nat.max_zero _).symm
  | cons b rest ih => exact ih.trans (max_assoc _ _ _)

/-- Each input goes through the products that are taken from it on; the first one takes part in the second one's. -/
theorem depth_foldl_productOfTwo :
    (rest.foldl e.productOfTwo first).depth =
      max (first.depth + rest.length) ((rest.mapIdx fun i c => c.depth + (rest.length - i)).foldr max 0) := by
  induction rest generalizing first with
  | nil => exact (Nat.max_zero _).symm
  | cons b rest ih =>
    have shifted : ((b :: rest).mapIdx fun i c => c.depth + ((b :: rest).length - i)).foldr max 0 =
        max (b.depth + (rest.length + 1)) ((rest.mapIdx fun i c => c.depth + (rest.length - i)).foldr max 0) := by
      simp [List.mapIdx_cons]
    rw [shifted, List.foldl_cons, ih, List.length_cons]
    have step : (e.productOfTwo first b).depth = max first.depth b.depth + 1 := rfl
    omega

/-! ## 4. Bytes of a sum -/

/-- What there is of a byte in several payloads adds up to the same as with zeros for what there is not. -/
theorem sum_present (payloads : List Bytes) (j : Nat) :
    ((payloads.filterMap (·[j]?)).map UInt8.toNat).sum = (payloads.map fun p => (p.getD j 0).toNat).sum := by
  induction payloads with
  | nil => rfl
  | cons p payloads ih =>
    rw [List.map_cons, List.sum_cons, ← ih, List.getD_eq_getElem?_getD]
    cases byte : p[j]? with
    | none => simp [byte]
    | some x => simp [byte]

/-- Every byte of a sum is what the inputs have of it, added up. -/
theorem byte_addMany {inputs : List (Ciphertext ν)} (h : e.addMany inputs = .ok r) (j : Nat) :
    (r.payload.getD j 0).toNat = (((inputs.map (·.payload)).filterMap (·[j]?)).map UInt8.toNat).sum % 256 := by
  have coeff := congrArg (Polynomial.coeff · j) (hasPolynomial_addMany h).polynomial
  simp only [Polynomial.coeff_list_sum_map, Payload.coeff_polynomial] at coeff
  have residues : ((r.payload.getD j 0).toNat : ZMod 256) =
      ((inputs.map fun c => (c.payload.getD j 0).toNat).sum : Nat) := by
    rw [Nat.cast_list_sum, List.map_map]
    exact coeff
  have congruent : (r.payload.getD j 0).toNat ≡ _ [MOD 256] := (ZMod.natCast_eq_natCast_iff _ _ 256).1 residues
  rw [sum_present, List.map_map, ← Nat.mod_eq_of_lt (r.payload.getD j 0).toNat_lt]
  exact congruent

/-! ## 5. Exact noise -/

theorem exact_sumNoise (e : Engine ℚ) (first : Ciphertext ℚ) (rest : List (Ciphertext ℚ)) :
    e.sumNoise first rest = ((first :: rest).map (·.noise)).sum + rest.length * e.growth.add := by
  induction rest generalizing first with
  | nil => simp [sumNoise]
  | cons b rest ih =>
    have next : e.sumNoise first (b :: rest) = e.sumNoise (e.sumOfTwo first b) rest := rfl
    have step : (e.sumOfTwo first b).noise = first.noise + b.noise + e.growth.add := rfl
    rw [next, ih]
    simp only [List.map_cons, List.sum_cons, List.length_cons, step]
    push_cast
    ring

theorem exact_productNoise (e : Engine ℚ) (first : Ciphertext ℚ) (rest : List (Ciphertext ℚ)) :
    e.productNoise first rest = ((first :: rest).map (·.noise)).prod * e.growth.multiply ^ rest.length := by
  induction rest generalizing first with
  | nil => simp [productNoise]
  | cons b rest ih =>
    have next : e.productNoise first (b :: rest) = e.productNoise (e.productOfTwo first b) rest := rfl
    have step : (e.productOfTwo first b).noise = first.noise * b.noise * e.growth.multiply := rfl
    rw [next, ih]
    simp only [List.map_cons, List.prod_cons, List.length_cons, step]
    ring

/-! ## 6. Accounts -/

/-- The account of a sum of several. -/
structure IsSum (e : Engine ν) (first : Ciphertext ν) (rest : List (Ciphertext ν)) (r : Ciphertext ν) : Prop where
  noise : r.noise = e.sumNoise first rest
  depth : r.depth = ((first :: rest).map (·.depth)).foldr max 0
  size : r.size = first.size
  bootstrapped : r.bootstrapped = false
  relinearized : r.relinearized = false
  length : r.payload.length = ((first :: rest).map fun c => c.payload.length).foldr max 0
  /-- Byte `j` is summed over the inputs that have one. -/
  byte : ∀ j (h : j < r.payload.length), r.payload[j].toNat =
    ((((first :: rest).map (·.payload)).filterMap (·[j]?)).map UInt8.toNat).sum % 256

/-- The account of a product of several. With `n` inputs the first one goes through `n - 1` products, and so does the
second one; every later input goes through one product less than the input before it. -/
structure IsProduct (e : Engine ν) (first : Ciphertext ν) (rest : List (Ciphertext ν)) (r : Ciphertext ν) : Prop where
  noise : r.noise = e.productNoise first rest
  depth : r.depth =
    max (first.depth + rest.length) ((rest.mapIdx fun i c => c.depth + (rest.length - i)).foldr max 0)
  size : r.size = 2
  bootstrapped : r.bootstrapped = false
  relinearized : r.relinearized = true
  length : r.payload.length = ((first :: rest).map fun c => c.payload.length).sum

/-- No result on the way is refused: `noise` tells the noise of what the first input and some of the others come to. -/
def Passes (noise : Ciphertext ν → List (Ciphertext ν) → ν) (first : Ciphertext ν) (rest : List (Ciphertext ν)) : Prop :=
  ∀ k < rest.length, less (noise first (rest.take (k + 1))) least = false

section Several

variable (several : rest ≠ [])
include several

theorem addMany_eq_foldlM : e.addMany (first :: rest) = rest.foldlM e.add first := by
  obtain ⟨b, rest, rfl⟩ := List.exists_cons_of_ne_nil several
  exact sumFrom_eq_foldlM first (b :: rest)

theorem multiplyChain_eq_foldlM : e.multiplyChain (first :: rest) = rest.foldlM e.multiplyStep first := by
  obtain ⟨b, rest, rfl⟩ := List.exists_cons_of_ne_nil several
  exact productFrom_eq_foldlM first (b :: rest)

variable (sizes : ∀ c ∈ first :: rest, freshSize ≤ c.size)
include sizes

theorem addMany_eq_ok_iff :
    e.addMany (first :: rest) = .ok r ↔ Passes e.sumNoise first rest ∧ rest.foldl e.sumOfTwo first = r := by
  rw [List.forall_mem_cons] at sizes
  rw [addMany_eq_foldlM several, (handsOut_add e).foldlM_eq_ok_iff sizes.1 sizes.2]
  simp only [noise_foldl_sumOfTwo, Passes]

theorem multiplyChain_eq_ok_iff :
    e.multiplyChain (first :: rest) = .ok r ↔ Passes e.productNoise first rest ∧ rest.foldl e.productOfTwo first = r := by
  rw [List.forall_mem_cons] at sizes
  rw [multiplyChain_eq_foldlM several, (handsOut_multiplyStep e).foldlM_eq_ok_iff sizes.1 sizes.2]
  simp only [noise_foldl_productOfTwo, Passes]

theorem isSum_of_addMany (h : e.addMany (first :: rest) = .ok r) : e.IsSum first rest r := by
  obtain ⟨-, rfl⟩ := (addMany_eq_ok_iff several sizes).1 h
  obtain ⟨a, b, last⟩ := exists_last_step e.sumOfTwo first several
  exact {
    noise := noise_foldl_sumOfTwo
    depth := depth_foldl_sumOfTwo
    size := size_foldl_sumOfTwo
    bootstrapped := congrArg Ciphertext.bootstrapped last
    relinearized := congrArg Ciphertext.relinearized last
    length := (hasPolynomial_addMany h).length
    byte := fun j below => by rw [← byte_addMany h j, List.getD_eq_getElem _ _ below] }

theorem isProduct_of_multiplyChain (h : e.multiplyChain (first :: rest) = .ok r) : e.IsProduct first rest r := by
  obtain ⟨-, rfl⟩ := (multiplyChain_eq_ok_iff several sizes).1 h
  obtain ⟨a, b, last⟩ := exists_last_step e.productOfTwo first several
  exact {
    noise := noise_foldl_productOfTwo
    depth := depth_foldl_productOfTwo
    size := congrArg Ciphertext.size last
    bootstrapped := congrArg Ciphertext.bootstrapped last
    relinearized := congrArg Ciphertext.relinearized last
    length := (hasPolynomial_multiplyChain h).length }

end Several

/-- With two inputs or more, sums and products are handed out unless the noise of a result on the way is too low, and
what is handed out has the account of a sum or a product. In exact numbers its noise is the sum of all levels and of
the additive growth factor for each further input, or their product with a power of the multiplicative one. -/
theorem several_account (e : Engine ν) (ideal : Engine ℚ) :
    (∀ (first : Ciphertext ν) (rest : List (Ciphertext ν)), rest ≠ [] → (∀ c ∈ first :: rest, 2 ≤ c.size) →
      (∀ r, e.multiplyChain (first :: rest) = .ok r → e.IsProduct first rest r) ∧
      (∀ r, e.addMany (first :: rest) = .ok r → e.IsSum first rest r) ∧
      ((∃ r, e.multiplyChain (first :: rest) = .ok r) ↔ Passes e.productNoise first rest) ∧
      ((∃ r, e.addMany (first :: rest) = .ok r) ↔ Passes e.sumNoise first rest)) ∧
    ∀ (first : Ciphertext ℚ) (rest : List (Ciphertext ℚ)), rest ≠ [] → (∀ c ∈ first :: rest, 2 ≤ c.size) →
      (∀ r, ideal.multiplyChain (first :: rest) = .ok r →
        r.noise = ((first :: rest).map (·.noise)).prod * ideal.growth.multiply ^ rest.length) ∧
      (∀ r, ideal.addMany (first :: rest) = .ok r →
        r.noise = ((first :: rest).map (·.noise)).sum + rest.length * ideal.growth.add) := by
  refine ⟨fun first rest several sizes => ⟨fun r => isProduct_of_multiplyChain several sizes, fun r =>
    isSum_of_addMany several sizes, ?_, ?_⟩, fun first rest several sizes => ⟨fun r h => ?_, fun r h => ?_⟩⟩
  · simp only [multiplyChain_eq_ok_iff several sizes, exists_and_left, exists_eq', and_true]
  · simp only [addMany_eq_ok_iff several sizes, exists_and_left, exists_eq', and_true]
  · rw [(isProduct_of_multiplyChain several sizes h).noise, exact_productNoise]
  · rw [(isSum_of_addMany several sizes h).noise, exact_sumNoise]

/-- The standard growth factors as they are written, without the rounding of floats. -/
def written : Engine ℚ := ⟨.tfhe, ⟨11 / 10, 5 / 2, 6 / 5, 21 / 20, 1 / 10⟩⟩

/-- A shallow input between two deep ones: of the product's depth of eight, the last input brings seven. -/
theorem several_account_threeDepths :
    let first : Ciphertext ℚ := ⟨[200, 3], 16 / 5, 5, 2, true, false⟩
    let rest : List (Ciphertext ℚ) := [⟨[100], 4, 0, 3, false, true⟩, ⟨[7, 0, 9], 5, 7, 4, false, false⟩]
    rest ≠ [] ∧ (∀ c ∈ first :: rest, 2 ≤ c.size) ∧ ∃ p s, written.multiplyChain (first :: rest) = .ok p ∧
      written.addMany (first :: rest) = .ok s ∧ p.size = 2 ∧ p.relinearized = true ∧ p.bootstrapped = false ∧
        p.payload.length = 6 ∧ p.depth = 8 ∧ p.noise = 400 ∧ s.size = 2 ∧ s.relinearized = false ∧
          s.bootstrapped = false ∧ s.depth = 7 ∧ s.payload[0]? = some 51 ∧ s.noise = 72 / 5 := by
  intro first rest
  have several : rest ≠ [] := List.cons_ne_nil _ _
  have sizes : ∀ c ∈ first :: rest, 2 ≤ c.size := by decide
  obtain ⟨accounts, levels⟩ := several_account written written
  obtain ⟨product, sum, madeProduct, madeSum⟩ := accounts first rest several sizes
  obtain ⟨productLevel, sumLevel⟩ := levels first rest several sizes
  obtain ⟨p, hp⟩ := madeProduct.2 (by unfold Passes; decide +kernel)
  obtain ⟨s, hs⟩ := madeSum.2 (by unfold Passes; decide +kernel)
  have ofProduct := product p hp
  have ofSum := sum s hs
  have long : s.payload.length = 3 := ofSum.length
  have byte : s.payload[0].toNat = 51 := (ofSum.byte 0 (by omega)).trans (by decide)
  refine ⟨several, sizes, p, s, hp, hs, ofProduct.size, ofProduct.relinearized, ofProduct.bootstrapped,
    ofProduct.length, ofProduct.depth, ?_, ofSum.size, ofSum.relinearized, ofSum.bootstrapped, ofSum.depth, ?_, ?_⟩
  · rw [productLevel p hp]
    norm_num [first, rest, written]
  · rw [List.getElem?_eq_getElem (by omega)]
    exact congrArg some (UInt8.toNat_inj.1 byte)
  · rw [sumLevel s hs]
    norm_num [first, rest, written]

end Engine

end SealedFields
