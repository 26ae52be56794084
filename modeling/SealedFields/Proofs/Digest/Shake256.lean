import SealedFields.Digest.Shake256

/-!
# The length of an extendable digest

The state keeps its twenty-five lanes, so that squeezing gives as many bytes as were asked for.
-/

namespace SealedFields.Shake256

/-! ## 1. The state keeps its size -/

theorem size_tabulate (f : Nat → Nat → UInt64) : (tabulate f).size = 25 := by simp [tabulate]

theorem size_round (s : Lanes) (constant : UInt64) : (round s constant).size = 25 := by
  simp [round, chi, size_tabulate]

theorem size_foldl_round (constants : List UInt64) (s : Lanes) (h : s.size = 25) :
    (constants.foldl round s).size = 25 := by
  induction constants generalizing s with
  | nil => exact h
  | cons constant constants ih =>
    rw [List.foldl_cons]
    exact ih (round s constant) (size_round s constant)

theorem size_permute (s : Lanes) (h : s.size = 25) : (permute s).size = 25 := by
  rw [permute]
  exact size_foldl_round roundConstants s h

theorem size_addBlock (i : Nat) (s : Lanes) (bs : Bytes) : (addBlock i s bs).size = s.size := by
  induction i, s, bs using addBlock.induct with
  | case1 i s a b c d e f g h bs ih =>
    rw [addBlock, ih, Array.size_setIfInBounds]
  | case2 i s bs short =>
    rw [addBlock]
    exact short

theorem size_absorbAll (blocks : Nat) (s : Lanes) (bs : Bytes) (h : s.size = 25) :
    (absorbAll blocks s bs).size = 25 := by
  induction blocks generalizing s bs with
  | zero => exact h
  | succ blocks ih =>
    refine ih _ _ (size_permute _ ?_)
    rw [size_addBlock]
    exact h

/-! ## 2. Squeezing -/

theorem length_bytesOf (s : Lanes) (h : s.size = 25) : (bytesOf s).length = rate := by
  have lanes : ∀ l : List UInt64,
      (l.flatMap fun l => Bytes.littleEndian 8 l.toNat).length = 8 * l.length := by
    intro l
    induction l with
    | nil => rfl
    | cons a l ih =>
      rw [List.flatMap_cons, List.length_append, ih, Bytes.length_littleEndian, List.length_cons]
      omega
  rw [bytesOf, List.length_take, lanes, Array.length_toList, h]
  rfl

theorem length_squeeze (blocks : Nat) (s : Lanes) (h : s.size = 25) :
    (squeeze blocks s).length = blocks * rate := by
  induction blocks generalizing s with
  | zero => simp [squeeze]
  | succ blocks ih =>
    rw [squeeze, List.length_append, length_bytesOf s h, ih _ (size_permute s h)]
    rw [Nat.succ_mul, Nat.add_comm]

theorem length_digest (message : Bytes) (length : Nat) : (digest message length).length = length := by
  have size : (absorbAll ((pad message).length / rate) (Array.replicate 25 0) (pad message)).size = 25 :=
    size_absorbAll _ _ _ (by simp)
  have enough : length < (length / rate + 1) * rate := by
    have := Nat.lt_div_mul_add (a := length) (b := rate) (by decide)
    rw [Nat.succ_mul]
    exact this
  rw [digest, List.length_take, length_squeeze _ _ size]
  omega

end SealedFields.Shake256
