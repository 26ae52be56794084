import SealedFields.Number.Reading

/-!
# Decimal numerals

A numeral consists of digits, has no zero in front unless it is zero, and has the value that was written.
-/

namespace SealedFields.Decimal

theorem value_nil : value [] = 0 := rfl

theorem value_concat (cs : List Char) (c : Char) : value (cs ++ [c]) = value cs * 10 + (c.toNat - 48) := by
  unfold value
  rw [List.foldl_append]
  rfl

theorem toNat_digit {n : Nat} (small : n < 10) : (digit n).toNat = 48 + n := by
  have all : ∀ n : Fin 10, (digit n.val).toNat = 48 + n.val := by decide
  exact all ⟨n, small⟩

theorem isDigit_digit {n : Nat} (small : n < 10) : isDigit (digit n) = true := by
  have all : ∀ n : Fin 10, isDigit (digit n.val) = true := by decide
  exact all ⟨n, small⟩

theorem onto_eq (n : Nat) (rest : List Char) : onto n rest = ofNat n ++ rest := by
  induction n using Nat.strongRecOn generalizing rest with
  | ind n ih =>
    unfold ofNat
    rw [onto.eq_def n rest, onto.eq_def n []]
    split
    case isTrue => rfl
    case isFalse many =>
      have less : n / 10 < n := by omega
      rw [ih _ less, ih _ less [digit (n % 10)], List.append_assoc]
      rfl

theorem ofNat_small {n : Nat} (small : n < 10) : ofNat n = [digit n] := by
  unfold ofNat
  rw [onto.eq_def, if_pos small]

theorem ofNat_large {n : Nat} (many : 10 ≤ n) : ofNat n = ofNat (n / 10) ++ [digit (n % 10)] := by
  have h : ¬ n < 10 := by omega
  rw [ofNat, onto.eq_def, if_neg h, onto_eq]

theorem ofNat_ne_nil (n : Nat) : ofNat n ≠ [] := by
  by_cases small : n < 10
  · rw [ofNat_small small]
    exact List.cons_ne_nil _ _
  · rw [ofNat_large (by omega)]
    exact List.concat_ne_nil _ _

theorem isDigit_ofNat (n : Nat) : ∀ c ∈ ofNat n, isDigit c = true := by
  induction n using Nat.strongRecOn with
  | ind n ih =>
    by_cases small : n < 10
    · rw [ofNat_small small]
      intro c hc
      rw [List.mem_singleton.1 hc]
      exact isDigit_digit small
    · rw [ofNat_large (by omega)]
      intro c hc
      rcases List.mem_append.1 hc with hc | hc
      · exact ih (n / 10) (by omega) c hc
      · rw [List.mem_singleton.1 hc]
        exact isDigit_digit (by omega)

/-- The value of a numeral is what was written. -/
theorem value_ofNat (n : Nat) : value (ofNat n) = n := by
  induction n using Nat.strongRecOn with
  | ind n ih =>
    by_cases small : n < 10
    · rw [ofNat_small small]
      show value ([] ++ [digit n]) = n
      rw [value_concat, value_nil, toNat_digit small]
      omega
    · rw [ofNat_large (by omega), value_concat, ih (n / 10) (by omega), toNat_digit (by omega)]
      omega

/-- The first digit of a numeral of more than one digit is not zero. -/
theorem head_ofNat {n : Nat} (pos : 0 < n) : ∃ c cs, ofNat n = c :: cs ∧ c ≠ '0' := by
  induction n using Nat.strongRecOn with
  | ind n ih =>
    by_cases small : n < 10
    · refine ⟨digit n, [], ofNat_small small, fun h => ?_⟩
      have value := toNat_digit small
      rw [h] at value
      have zero : '0'.toNat = 48 := rfl
      omega
    · obtain ⟨c, cs, first, ne⟩ := ih (n / 10) (by omega) (by omega)
      refine ⟨c, cs ++ [digit (n % 10)], ?_, ne⟩
      rw [ofNat_large (by omega), first]
      rfl

/-- A number below a power of ten has no more digits than its exponent. -/
theorem length_ofNat {n k : Nat} (pos : 0 < k) (h : n < Nat.pow 10 k) : (ofNat n).length ≤ k := by
  induction k generalizing n with
  | zero => omega
  | succ k ih =>
    by_cases small : n < 10
    · rw [ofNat_small small]
      exact pos
    · rw [ofNat_large (by omega), List.length_append, List.length_singleton]
      have power : Nat.pow 10 (k + 1) = Nat.pow 10 k * 10 := rfl
      have less : n / 10 < Nat.pow 10 k := by omega
      have pos : 0 < k := by
        rcases Nat.eq_zero_or_pos k with rfl | pos
        · have one : Nat.pow 10 0 = 1 := rfl
          omega
        · exact pos
      have rest := ih pos less
      omega

theorem maxDigits_pos : 0 < maxDigits := by
  unfold maxDigits
  decide

/-- A run of digits ends where its numeral ends. -/
theorem digitRun_append {ds rest : List Char} (digits : ∀ c ∈ ds, isDigit c = true)
    (ends : ∀ c ∈ rest.head?, isDigit c = false) : Number.digitRun (ds ++ rest) = (ds, rest) := by
  have stop : rest.takeWhile isDigit = [] ∧ rest.dropWhile isDigit = rest := by
    cases rest with
    | nil => exact ⟨rfl, rfl⟩
    | cons c rest =>
      have no := ends c rfl
      exact ⟨List.takeWhile_cons_of_neg (by rw [no]; exact Bool.false_ne_true),
        List.dropWhile_cons_of_neg (by rw [no]; exact Bool.false_ne_true)⟩
  unfold Number.digitRun
  rw [List.takeWhile_append_of_pos digits, List.dropWhile_append_of_pos digits, stop.1, stop.2, List.append_nil]

end SealedFields.Decimal
