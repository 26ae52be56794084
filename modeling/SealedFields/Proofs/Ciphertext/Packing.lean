import SealedFields.Ciphertext.Packing

/-!
# Packed buffers

Buffers that were packed are read one after the other, each as far as the length in front of it says.
-/

namespace SealedFields

namespace Bytes

theorem toNat_concat (bs : Bytes) (b : UInt8) : toNat (bs ++ [b]) = toNat bs * 256 + b.toNat := by
  unfold toNat
  rw [List.foldl_append]
  rfl

/-- A number is read from its bytes, if there are enough of them. -/
theorem toNat_bigEndian {width n : Nat} (small : n < Nat.pow 256 width) : toNat (bigEndian width n) = n := by
  induction width generalizing n with
  | zero =>
    have one : Nat.pow 256 0 = 1 := rfl
    have zero : n = 0 := by omega
    rw [zero]
    rfl
  | succ width ih =>
    have power : Nat.pow 256 (width + 1) = Nat.pow 256 width * 256 := rfl
    have high : n / 256 < Nat.pow 256 width := by omega
    have low : (UInt8.ofNat (n % 256)).toNat = n % 256 := UInt8.toNat_ofNat_of_lt' (Nat.mod_lt n (by decide))
    have last : bigEndian (width + 1) n = bigEndian width (n / 256) ++ [UInt8.ofNat (n % 256)] :=
      List.reverse_cons
    rw [last, toNat_concat, ih high, low]
    omega

end Bytes

namespace Packing

variable {values : List Bytes} {value rest packed : Bytes}

theorem packAll_eq_ok (h : packAll values = .ok packed) :
    packed = pack values ∧ ∀ value ∈ values, value.length ≤ maxLength := by
  unfold packAll at h
  split at h
  case isTrue => cases h
  case isFalse fits =>
    refine ⟨(Except.ok.inj h).symm, fun value mem => Nat.le_of_not_lt fun long => ?_⟩
    exact fits (List.any_eq_true.2 ⟨value, mem, decide_eq_true long⟩)

theorem unpackFrom_nil (offset : Nat) : unpackFrom offset [] = .ok [] := by
  rw [unpackFrom]
  rfl

/-- The first record is read and the rest goes on after it. -/
theorem unpackFrom_record (offset : Nat) (fits : value.length ≤ maxLength) :
    unpackFrom offset (record value ++ rest)
      = (unpackFrom (offset + lengthBytes + value.length) rest).map (value :: ·) := by
  have four : (Bytes.bigEndian lengthBytes value.length).length = lengthBytes := Bytes.length_bigEndian _ _
  have split : record value ++ rest = Bytes.bigEndian lengthBytes value.length ++ (value ++ rest) :=
    List.append_assoc _ _ _
  have taken : (record value ++ rest).take lengthBytes = Bytes.bigEndian lengthBytes value.length := by
    rw [split]
    exact List.take_left' four
  have dropped : (record value ++ rest).drop lengthBytes = value ++ rest := by
    rw [split]
    exact List.drop_left' four
  have length_eq : (record value ++ rest).length = lengthBytes + (value.length + rest.length) := by
    rw [split, List.length_append, four, List.length_append]
  have declared : Bytes.toNat (Bytes.bigEndian lengthBytes value.length) = value.length := by
    apply Bytes.toNat_bigEndian
    have bound : maxLength < Nat.pow 256 lengthBytes := by decide
    omega
  have some : (record value ++ rest).isEmpty = false := by
    rw [List.isEmpty_eq_false_iff, ← List.length_pos_iff, length_eq]
    exact Nat.lt_of_lt_of_le (by decide) (Nat.le_add_right _ _)
  rw [unpackFrom, some, if_neg Bool.false_ne_true, dif_neg (by omega)]
  dsimp only
  rw [taken, dropped, declared, if_neg (by rw [List.length_append]; omega), List.drop_left, List.take_left]
  cases unpackFrom (offset + lengthBytes + value.length) rest <;> rfl

theorem unpackFrom_pack (offset : Nat) (fits : ∀ value ∈ values, value.length ≤ maxLength) :
    unpackFrom offset (pack values) = .ok values := by
  induction values generalizing offset with
  | nil => exact unpackFrom_nil offset
  | cons value values ih =>
    have first : pack (value :: values) = record value ++ pack values := rfl
    rw [first, unpackFrom_record offset (fits value List.mem_cons_self),
      ih _ fun value mem => fits value (List.mem_cons_of_mem _ mem)]
    rfl

end Packing

end SealedFields
