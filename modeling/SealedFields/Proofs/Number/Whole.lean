import SealedFields.Proofs.Number.Neighbours

/-!
# Whole numbers among the floats

Whole numbers of at most 53 bits are floats, so that no number is rounded past them. A number that lies below one is
rounded to it if it is near enough, and how near depends on whether the whole number is a power of two.
-/

namespace SealedFields.Number.Binary64

variable {n m : Nat} {e : Int} {v : ℚ}

/-- How far below a whole number what is rounded to it may lie, in quarters of its unit. -/
def room (n : Nat) : Nat := if n = 2 ^ n.log2 then 1 else 2

/-- A whole number as a float. -/
theorem isNearest_whole (pos : 0 < n) (most : n ≤ 2 ^ 52) : ∃ m e, IsNearest m e n ∧ (m : ℚ) * 2 ^ e = n ∧
    e = n.log2 - 52 ∧ m % 2 = 0 ∧ slack m e = room n := by
  obtain ⟨up, down⟩ := full_mantissa pos (by omega)
  have low := Nat.log2_self_le pos.ne'
  have bits : n.log2 < 53 := (Nat.log2_lt pos.ne').2 (by omega)
  have value := scaled_eq (i := n.log2) (j := 52) (by omega) n
  unfold room
  generalize n.log2 = j at *
  have unit : 0 < 2 ^ (52 - j) := by positivity
  refine ⟨n * 2 ^ (52 - j), j - 52, ?_, value, rfl, ?_, ?_⟩
  · have self := isNearest_self ⟨down, by omega, .inl up⟩ (by omega) (show (j : Int) - 52 < 972 by omega)
    rw [Nat.cast_ofNat] at value
    rwa [value] at self
  · rcases Nat.lt_or_ge j 52 with few | all
    · exact Nat.mod_eq_zero_of_dvd (dvd_mul_of_dvd_right (dvd_pow_self 2 (by omega)) n)
    · -- The only number with all bits is a power of two.
      obtain rfl : j = 52 := by omega
      omega
  · have full : 2 ^ j * 2 ^ (52 - j) = 2 ^ 52 := by rw [← pow_add, Nat.add_sub_cancel' (by omega)]
    have same : n * 2 ^ (52 - j) = 2 ^ 52 ↔ n = 2 ^ j := by
      rw [← full]
      exact ⟨Nat.eq_of_mul_eq_mul_right unit, congrArg (· * 2 ^ (52 - j))⟩
    have normal : (j : Int) - 52 ≠ -1074 := by omega
    simp only [slack, same, ne_eq, normal, not_false_eq_true, and_true]

theorem whole_le_rounded (h : IsNearest m e v) (most : n ≤ 2 ^ 52) (le : (n : ℚ) ≤ v) : (n : ℚ) ≤ m * 2 ^ e := by
  rcases Nat.eq_zero_or_pos n with rfl | pos
  · rw [Nat.cast_zero]
    positivity
  · obtain ⟨m', e', whole, value, -⟩ := isNearest_whole pos most
    rw [← value]
    exact whole.mono h le

/-- A number reaches a whole number, once rounded, if it is at most so far below it. -/
theorem whole_le_rounded_iff (h : IsNearest m e v) (pos : 0 < n) (most : n ≤ 2 ^ 52) :
    (n : ℚ) ≤ m * 2 ^ e ↔ 4 * n - room n * 2 ^ ((n.log2 : Int) - 52) ≤ 4 * v := by
  obtain ⟨m', e', whole, value, rfl, even, room_eq⟩ := isNearest_whole pos most
  have edge : (4 * m' - room n : ℚ) * 2 ^ ((n.log2 : Int) - 52) = 4 * n - room n * 2 ^ ((n.log2 : Int) - 52) := by
    rw [sub_mul, mul_assoc, value]
  constructor
  · intro reached
    by_contra below
    have misses := h.misses whole
    rw [room_eq, edge, value] at misses
    exact absurd reached (misses (not_le.1 below)).not_ge
  · intro near
    have reaches := h.reaches whole
    rw [room_eq, edge, value] at reaches
    exact reaches near (by omega)

/-- The next whole number has no more room below it than the number has units. -/
theorem room_succ_le (pos : 0 < n) : room (n + 1) * 2 ^ (n + 1).log2 ≤ 2 * n := by
  have low := Nat.log2_self_le (n := n + 1) (by omega)
  unfold room
  generalize 2 ^ (n + 1).log2 = power at *
  split <;> omega

theorem room_scaled (n : Nat) :
    2 ^ 52 * (room n * (2 : ℚ) ^ ((n.log2 : Int) - 52)) = (room n * 2 ^ n.log2 : Nat) := by
  have unit : (2 : ℚ) ^ ((n.log2 : Int) - 52) * 2 ^ 52 = 2 ^ n.log2 := by
    rw [← zpow_natCast, ← zpow_natCast, ← zpow_add₀ two_ne_zero]
    congr 1
    omega
  push_cast
  rw [← unit]
  ring

/-- What is at most halfway to the next whole number is not rounded to it. -/
theorem rounded_lt_add_one (h : IsNearest m e v) (half : 2 * v ≤ 2 * n + 1) (small : n < 2 ^ 52) :
    (m : ℚ) * 2 ^ e < n + 1 := by
  obtain ⟨m', e', middle, value⟩ :=
    exists_float (n := 2 * n + 1) (t := -1) (by omega) (by omega) (by decide) (by decide)
  rw [zpow_neg_one] at middle value
  push_cast at middle value
  have le := h.mono middle (by linarith)
  linarith

end SealedFields.Number.Binary64
