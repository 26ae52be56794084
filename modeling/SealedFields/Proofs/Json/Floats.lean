import SealedFields.Proofs.Json.RoundTrip
import SealedFields.Proofs.Number.Written

/-!
# Floats are read as they are printed

The text of a float is a decimal numeral with a fraction or an exponent. Whichever way it is laid out, its digits
and its exponent stand for the shortest decimal of the float, so that it is read as the float.
-/

namespace SealedFields

/-! ## 1. Digits -/

namespace Decimal

variable {cs ds : List Char}

theorem value_append (cs ds : List Char) : value (cs ++ ds) = value cs * 10 ^ ds.length + value ds := by
  induction ds using List.reverseRecOn with
  | nil => simp [value_nil]
  | append_singleton ds d ih =>
    rw [← List.append_assoc, value_concat, value_concat, ih, List.length_append, List.length_singleton, pow_succ]
    ring

theorem value_replicate_zero (n : Nat) : value (List.replicate n '0') = 0 := by
  induction n with
  | zero => rfl
  | succ n ih =>
    rw [List.replicate_succ', value_concat, ih]
    rfl

theorem isDigit_replicate_zero (n : Nat) : ∀ c ∈ List.replicate n '0', isDigit c = true := by
  intro c hc
  rw [List.eq_of_mem_replicate hc]
  rfl

theorem value_padded (width n : Nat) : value (padded width n) = n := by
  show value (List.replicate _ '0' ++ ofNat n) = n
  rw [value_append, value_replicate_zero, value_ofNat, Nat.zero_mul, Nat.zero_add]

theorem isDigit_padded (width n : Nat) : ∀ c ∈ padded width n, isDigit c = true := by
  intro c hc
  rcases List.mem_append.1 hc with zero | digit
  · exact isDigit_replicate_zero _ c zero
  · exact isDigit_ofNat n c digit

theorem padded_ne_nil (width n : Nat) : padded width n ≠ [] := List.append_ne_nil_of_right_ne_nil _ (ofNat_ne_nil n)

/-- Digits of a number above zero, without zeros in front. -/
structure Numeral (cs : List Char) : Prop where
  digits : ∀ c ∈ cs, isDigit c = true
  head : ∃ c tail, cs = c :: tail ∧ c ≠ '0'

theorem Numeral.ne_nil (h : Numeral cs) : cs ≠ [] := by
  obtain ⟨c, tail, rfl, -⟩ := h.head
  exact List.cons_ne_nil _ _

theorem numeral_ofNat {n : Nat} (pos : 0 < n) : Numeral (ofNat n) := ⟨isDigit_ofNat n, head_ofNat pos⟩

end Decimal

namespace Number

/-- The zeros at the end are dropped, and counted. -/
theorem eq_dropZeros_append (cs : List Char) :
    cs = (dropZeros cs).1 ++ List.replicate (dropZeros cs).2 '0' := by
  have zeros : ∀ c ∈ (cs.reverse.takeWhile (· == '0')).reverse, c = '0' := by
    intro c hc
    simpa using List.mem_takeWhile_imp (List.mem_reverse.1 hc)
  have split : cs = (dropZeros cs).1 ++ (cs.reverse.takeWhile (· == '0')).reverse := by
    show cs = (cs.reverse.dropWhile (· == '0')).reverse ++ _
    rw [← List.reverse_append, List.takeWhile_append_dropWhile, List.reverse_reverse]
  have count : (dropZeros cs).2 = (cs.reverse.takeWhile (· == '0')).reverse.length := by
    have length := congrArg List.length split
    rw [List.length_append] at length
    show cs.length - (dropZeros cs).1.length = _
    omega
  rw [count, ← List.eq_replicate_of_mem zeros]
  exact split

theorem numeral_dropZeros {cs : List Char} (numeral : Decimal.Numeral cs) : Decimal.Numeral (dropZeros cs).1 := by
  obtain ⟨digits, c, tail, cs_eq, ne⟩ := numeral
  have split := eq_dropZeros_append cs
  constructor
  · intro d hd
    apply digits
    rw [split]
    exact List.mem_append_left _ hd
  · cases kept : (dropZeros cs).1 with
    | nil =>
      -- The first digit is not a zero, so that not all are dropped.
      rw [kept, List.nil_append, cs_eq] at split
      exact absurd (List.eq_of_mem_replicate (split ▸ List.mem_cons_self)) ne
    | cons d kept' =>
      rw [kept, cs_eq] at split
      obtain rfl := (List.cons.inj split).1
      exact ⟨c, kept', rfl, ne⟩

end Number

namespace Json

/-! ## 2. Numerals with a fraction or an exponent -/

section

variable {whole fraction digits rest : List Char}

/-- The whole part of a numeral: a zero alone, or digits without zeros in front. -/
def IsWhole (whole : List Char) : Prop := whole = ['0'] ∨ Decimal.Numeral whole

theorem IsWhole.exists_digit (h : IsWhole whole) : ∃ c tail, whole = c :: tail ∧ Decimal.isDigit c = true := by
  rcases h with rfl | numeral
  · exact ⟨'0', [], rfl, rfl⟩
  · obtain ⟨c, tail, rfl, -⟩ := numeral.head
    exact ⟨c, tail, rfl, numeral.digits c List.mem_cons_self⟩

theorem wholeDigits?_append (h : IsWhole whole) (ends : ∀ c ∈ rest.head?, Decimal.isDigit c = false) :
    wholeDigits? (whole ++ rest) = some (whole, rest) := by
  rcases h with rfl | numeral
  · rfl
  · obtain ⟨c, tail, rfl, ne⟩ := numeral.head
    have run := Decimal.digitRun_append numeral.digits ends
    rw [List.cons_append, wholeDigits?]
    · dsimp only
      rw [← List.cons_append, run]
      rfl
    · exact fun _ h => ne (List.cons.inj h).1

theorem fractionDigits_point (digits : ∀ c ∈ fraction, Decimal.isDigit c = true) (nonempty : fraction ≠ [])
    (ends : ∀ c ∈ rest.head?, Decimal.isDigit c = false) :
    fractionDigits ('.' :: (fraction ++ rest)) = (fraction, rest) := by
  have run := Decimal.digitRun_append digits ends
  rw [fractionDigits, run]
  cases fraction with
  | nil => exact absurd rfl nonempty
  | cons c fraction => rfl

/-- An exponent as it is printed. -/
theorem exponentPart_printed (down : Bool) (all : ∀ c ∈ digits, Decimal.isDigit c = true) (nonempty : digits ≠ [])
    (ends : Ends rest) : exponentPart ('e' :: (if down then '-' else '+') :: (digits ++ rest))
      = (some (if down then -(Decimal.value digits : Int) else Decimal.value digits), rest) := by
  have run := Decimal.digitRun_append all ends.noDigit
  have signed : Number.signed ((if down then '-' else '+') :: (digits ++ rest)) = (down, digits ++ rest) := by
    cases down <;> rfl
  have some : digits.isEmpty = false := by
    cases digits with
    | nil => exact absurd rfl nonempty
    | cons c digits => rfl
  unfold exponentPart
  dsimp only
  rw [if_pos (.inl rfl), signed]
  dsimp only
  rw [run]
  dsimp only
  rw [some]
  rfl

/-- What follows the whole part decides whether a numeral is a float. -/
theorem magnitude_float (negative : Bool) {after left : List Char} {exponent : Option Int} (h : IsWhole whole)
    (ends : ∀ c ∈ after.head?, Decimal.isDigit c = false) (fractional : fractionDigits after = (fraction, left))
    (marked : exponentPart left = (exponent, rest)) (float : fraction ≠ [] ∨ exponent ≠ none) :
    magnitude negative (whole ++ after) = .ok (.float (Number.ofDecimal negative
      (Decimal.value (whole ++ fraction)) (exponent.getD 0 - fraction.length)), rest) := by
  have noInt : ¬ (fraction.isEmpty && exponent.isNone) = true := by
    rw [Bool.and_eq_true, List.isEmpty_iff, Option.isNone_iff_eq_none]
    rintro ⟨none, none'⟩
    exact float.elim (· none) (· none')
  unfold magnitude
  rw [wholeDigits?_append h ends]
  dsimp only
  rw [fractional]
  dsimp only
  rw [marked]
  dsimp only
  rw [if_neg noInt]
  rfl

end

/-! ## 3. Layouts -/

section

variable {digits rest : List Char} {point : Int}

/-- A text that is read as a decimal with the value of the digits, of which `point` stand before the point. -/
structure ReadsAs (text digits : List Char) (point : Int) : Prop where
  begins : ∃ c tail, text = c :: tail ∧ Decimal.isDigit c = true
  reads : ∀ (negative : Bool) {rest : List Char}, Ends rest → ∃ d k,
    magnitude negative (text ++ rest) = .ok (.float (Number.ofDecimal negative d k), rest) ∧
    (d : ℚ) * 10 ^ k = Decimal.value digits * 10 ^ (point - digits.length) ∧
    d ≤ Decimal.value digits * 10 ^ 17

theorem noDigit_point (cs : List Char) : ∀ c ∈ ('.' :: cs).head?, Decimal.isDigit c = false := by
  rintro c ⟨⟩
  rfl

theorem noDigit_mark (cs : List Char) : ∀ c ∈ ('e' :: cs).head?, Decimal.isDigit c = false := by
  rintro c ⟨⟩
  rfl

/-- Digits with a point behind the first one. -/
def mantissa : List Char → List Char
  | [] => ['0']
  | [d] => [d]
  | d :: ds => d :: '.' :: ds

/-- One digit before the point, and an exponent. -/
theorem readsAs_scientific (numeral : Decimal.Numeral digits) (down : Bool) {exponent : List Char}
    (all : ∀ c ∈ exponent, Decimal.isDigit c = true) (nonempty : exponent ≠ [])
    (stands : (if down then -(Decimal.value exponent : Int) else Decimal.value exponent) = point - 1) :
    ReadsAs (mantissa digits ++ ['e', if down then '-' else '+'] ++ exponent) digits point := by
  obtain ⟨d, ds, rfl, nonzero⟩ := numeral.head
  have digit : Decimal.isDigit d = true := numeral.digits d List.mem_cons_self
  have whole : IsWhole [d] := .inr ⟨List.forall_mem_singleton.2 digit, d, [], rfl, nonzero⟩
  have same : ((Decimal.value (d :: ds) : Nat) : ℚ) * 10 ^ (point - 1 - (ds.length : Int))
      = Decimal.value (d :: ds) * 10 ^ (point - (d :: ds).length) := by
    congr 2
    rw [List.length_cons]
    omega
  have most : Decimal.value (d :: ds) ≤ Decimal.value (d :: ds) * 10 ^ 17 := Nat.le_mul_of_pos_right _ (by decide)
  cases ds with
  | nil =>
    refine ⟨⟨d, _, rfl, digit⟩, fun negative {rest} ends => ⟨_, _, ?_, same, most⟩⟩
    have printed := exponentPart_printed down all nonempty ends
    have read := magnitude_float negative whole (noDigit_mark _) rfl printed (.inr (Option.some_ne_none _))
    rw [Option.getD_some, stands] at read
    rw [List.append_assoc]
    exact read
  | cons d' ds =>
    refine ⟨⟨d, _, rfl, digit⟩, fun negative {rest} ends => ⟨_, _, ?_, same, most⟩⟩
    have printed := exponentPart_printed down all nonempty ends
    have digits : ∀ c ∈ d' :: ds, Decimal.isDigit c = true := fun c hc => numeral.digits c (List.mem_cons_of_mem _ hc)
    have fraction := fractionDigits_point digits (List.cons_ne_nil _ _)
      (noDigit_mark ((if down then '-' else '+') :: (exponent ++ rest)))
    have read := magnitude_float negative whole (noDigit_point _) fraction printed (.inl (List.cons_ne_nil _ _))
    rw [Option.getD_some, stands] at read
    rw [List.append_assoc, List.append_assoc]
    exact read

/-- A point, and no exponent. -/
theorem readsAs_point {whole fraction : List Char} (h : IsWhole whole) (all : ∀ c ∈ fraction, Decimal.isDigit c = true)
    (nonempty : fraction ≠ []) (same : (Decimal.value (whole ++ fraction) : ℚ) * 10 ^ (-(fraction.length : Int))
      = Decimal.value digits * 10 ^ (point - digits.length))
    (most : Decimal.value (whole ++ fraction) ≤ Decimal.value digits * 10 ^ 17) :
    ReadsAs (whole ++ '.' :: fraction) digits point := by
  obtain ⟨c, tail, whole_eq, digit⟩ := h.exists_digit
  refine ⟨⟨c, tail ++ '.' :: fraction, ?_, digit⟩, fun negative {rest} ends => ⟨_, _, ?_, same, most⟩⟩
  · rw [whole_eq]
    rfl
  · have fractional := fractionDigits_point all nonempty ends.noDigit
    have read := magnitude_float negative h (noDigit_point _) fractional (exponentPart_of_ends ends) (.inl nonempty)
    rw [Option.getD_none, Int.zero_sub] at read
    rw [List.append_assoc]
    exact read

/-- Zeros between the point and the digits. -/
theorem readsAs_small (numeral : Decimal.Numeral digits) (small : point ≤ 0) :
    ReadsAs ('0' :: '.' :: List.replicate point.natAbs '0' ++ digits) digits point := by
  have value : Decimal.value (['0'] ++ (List.replicate point.natAbs '0' ++ digits)) = Decimal.value digits := by
    rw [Decimal.value_append, Decimal.value_append, Decimal.value_replicate_zero, Nat.zero_mul, Nat.zero_add]
    show 0 * _ + _ = _
    rw [Nat.zero_mul, Nat.zero_add]
  show ReadsAs (['0'] ++ '.' :: (List.replicate point.natAbs '0' ++ digits)) digits point
  apply readsAs_point (.inl rfl)
  · exact List.forall_mem_append.2 ⟨Decimal.isDigit_replicate_zero _, numeral.digits⟩
  · exact List.append_ne_nil_of_right_ne_nil _ numeral.ne_nil
  · rw [value, List.length_append, List.length_replicate]
    congr 2
    omega
  · rw [value]
    exact Nat.le_mul_of_pos_right _ (by decide)

/-- The point among the digits, or behind them. -/
theorem readsAs_positional (numeral : Decimal.Numeral digits) (large : 0 < point) (short : point ≤ 16) :
    ReadsAs (digits.take point.toNat ++ List.replicate (point.toNat - (digits.take point.toNat).length) '0' ++
      '.' :: (if (digits.drop point.toNat).isEmpty then ['0'] else digits.drop point.toNat)) digits point := by
  obtain ⟨n, rfl⟩ : ∃ n : Nat, point = n := ⟨point.toNat, by omega⟩
  rw [Int.toNat_natCast]
  have whole : IsWhole (digits.take n ++ List.replicate (n - (digits.take n).length) '0') := by
    right
    constructor
    · apply List.forall_mem_append.2 ⟨_, Decimal.isDigit_replicate_zero _⟩
      exact fun c hc => numeral.digits c (List.mem_of_mem_take hc)
    · obtain ⟨d, ds, rfl, nonzero⟩ := numeral.head
      obtain ⟨n, rfl⟩ := Nat.exists_eq_succ_of_ne_zero (n := n) (by omega)
      exact ⟨d, _, rfl, nonzero⟩
  by_cases behind : digits.length ≤ n
  · have none : digits.drop n = [] := List.drop_eq_nil_of_le behind
    have all : digits.take n = digits := List.take_of_length_le behind
    rw [all] at whole
    have value : Decimal.value (digits ++ List.replicate (n - digits.length) '0' ++ ['0'])
        = Decimal.value digits * 10 ^ (n - digits.length + 1) := by
      rw [List.append_assoc, Decimal.value_append, ← List.replicate_succ', Decimal.value_replicate_zero,
        List.length_replicate, Nat.add_zero]
    have places : ((n - digits.length + 1 : Nat) : Int) = n - digits.length + 1 := by omega
    rw [none, all]
    apply readsAs_point whole (List.forall_mem_singleton.2 rfl) (List.cons_ne_nil _ _)
    · show (Decimal.value (_ ++ ['0']) : ℚ) * 10 ^ (-(1 : Int)) = _
      have shifted : (10 : ℚ) ^ (n - digits.length + 1) * 10 ^ (-(1 : Int)) = 10 ^ ((n : Int) - digits.length) := by
        rw [← zpow_natCast, ← zpow_add₀ (by norm_num), places, add_neg_cancel_right]
      rw [value, Nat.cast_mul, Nat.cast_pow, Nat.cast_ofNat, mul_assoc, shifted]
    · rw [value]
      have some := List.length_pos_of_ne_nil numeral.ne_nil
      exact Nat.mul_le_mul_left _ (Nat.pow_le_pow_right (by decide) (by omega))
  · have some : digits.drop n ≠ [] := by
      rw [Ne, List.drop_eq_nil_iff]
      exact behind
    have none : n - (digits.take n).length = 0 := by
      rw [List.length_take]
      omega
    rw [none, List.replicate_zero, List.append_nil] at whole ⊢
    rw [if_neg (by rwa [List.isEmpty_iff])]
    apply readsAs_point whole (fun c hc => numeral.digits c (List.mem_of_mem_drop hc)) some
    · rw [List.take_append_drop, List.length_drop]
      congr 2
      omega
    · rw [List.take_append_drop]
      exact Nat.le_mul_of_pos_right _ (by decide)

/-- However it is laid out, a numeral is read as it was meant. -/
theorem readsAs_layOut (numeral : Decimal.Numeral digits) (point : Int) :
    ReadsAs (Number.layOut digits point) digits point := by
  unfold Number.layOut
  dsimp only
  split
  case isTrue far =>
    have sign : (if point - 1 < 0 then '-' else '+') = if decide (point - 1 < 0) then '-' else '+' := by
      simp only [decide_eq_true_eq]
    rw [sign]
    show ReadsAs (mantissa digits ++ _ ++ _) digits point
    apply readsAs_scientific numeral _ (Decimal.isDigit_padded _ _) (Decimal.padded_ne_nil _ _)
    rw [Decimal.value_padded]
    simp only [decide_eq_true_eq]
    split
    case isTrue => omega
    case isFalse => omega
  case isFalse positional =>
    split
    case isTrue small => exact readsAs_small numeral small
    case isFalse large => exact readsAs_positional numeral (by omega) (by omega)

end

/-! ## 4. Floats -/

section

variable {text : List Char} {v : Value} {x : Float} {negative : Bool} {m d : Nat} {e k : Int}

/-- A numeral is read with its sign, which may be left out. -/
theorem reads_signed (negative : Bool) (begins : ∃ c tail, text = c :: tail ∧ Decimal.isDigit c = true)
    (each : ∀ {rest : List Char}, Ends rest → magnitude negative (text ++ rest) = .ok (v, rest)) :
    Reads ((if negative then ['-'] else []) ++ text) v := by
  obtain ⟨c, tail, text_eq, digit⟩ := begins
  -- A digit is none of the characters by which other values begin, nor the minus.
  have other : ∀ d, Decimal.isDigit d = false → c ≠ d := by
    rintro d no rfl
    rw [digit] at no
    cases no
  cases negative with
  | false =>
    have noSpace : isSpace c = false := by
      have a := other ' ' (by decide)
      have b := other '\t' (by decide)
      have d := other '\n' (by decide)
      have e := other '\r' (by decide)
      simp [isSpace, a, b, d, e]
    refine ⟨⟨c, tail, text_eq, noSpace, other _ (by decide), other _ (by decide)⟩, fun {fuel rest} ends enough => ?_⟩
    obtain ⟨fuel, rfl⟩ := exists_fuel (by simp [text_eq]) enough
    have unsigned : number (text ++ rest) = magnitude false (text ++ rest) := by
      rw [text_eq, List.cons_append, number]
      rintro _ h
      exact other '-' (by decide) (List.cons.inj h).1
    have numeral := unsigned.trans (each ends)
    show value (fuel + 1) (text ++ rest) = _
    rw [text_eq, List.cons_append] at numeral ⊢
    rw [value_of_number (other _ (by decide)) (other _ (by decide)) (other _ (by decide)) fuel (word?_digit digit _),
      numeral]
  | true =>
    refine ⟨⟨'-', _, rfl, by decide, by decide, by decide⟩, fun {fuel rest} ends enough => ?_⟩
    obtain ⟨fuel, rfl⟩ := exists_fuel (Nat.succ_pos _) enough
    have noWord : word? ('-' :: (text ++ rest)) = none := by
      rw [text_eq]
      exact word?_minus digit _
    have numeral : number ('-' :: (text ++ rest)) = .ok (v, rest) := each ends
    show value (fuel + 1) ('-' :: (text ++ rest)) = _
    rw [value_of_number (by decide) (by decide) (by decide) fuel noWord, numeral]

theorem reads_zero (hx : Number.Binary64.ofFloat x = .finite negative 0 e) :
    Reads ((if negative then ['-'] else []) ++ ['0', '.', '0']) (.float x) := by
  apply reads_signed negative ⟨'0', _, rfl, rfl⟩
  intro rest ends
  have zero : ∀ c ∈ ['0'], Decimal.isDigit c = true := List.forall_mem_singleton.2 rfl
  have fractional := fractionDigits_point zero (List.cons_ne_nil _ _) ends.noDigit
  have read := magnitude_float negative (.inl rfl) (noDigit_point _) fractional (exponentPart_of_ends ends)
    (.inl (List.cons_ne_nil _ _))
  rw [← Number.ofDecimal_zero hx (-1)]
  exact read

/-- A float above or below zero is read from its shortest decimal. -/
theorem reads_shortest (hx : Number.Binary64.ofFloat x = .finite negative m e) (pos : 0 < m) :
    Reads ((if negative then ['-'] else []) ++
      Number.layOut (Number.dropZeros (Decimal.ofNat (Number.shortest m e).1)).1
        (Int.ofNat (Number.dropZeros (Decimal.ofNat (Number.shortest m e).1)).1.length + (Number.shortest m e).2 +
          Int.ofNat (Number.dropZeros (Decimal.ofNat (Number.shortest m e).1)).2)) (.float x) := by
  obtain ⟨positive, short, rounds⟩ := Number.shortest_range hx pos
  generalize (Number.shortest m e).1 = d at *
  generalize (Number.shortest m e).2 = k at *
  have digits := Number.eq_dropZeros_append (Decimal.ofNat d)
  have numeral := Number.numeral_dropZeros (Decimal.numeral_ofNat positive)
  generalize (Number.dropZeros (Decimal.ofNat d)).1 = kept at *
  generalize (Number.dropZeros (Decimal.ofNat d)).2 = dropped at *
  have value : d = Decimal.value kept * 10 ^ dropped := by
    rw [← Decimal.value_ofNat d, digits, Decimal.value_append, Decimal.value_replicate_zero, List.length_replicate,
      Nat.add_zero]
  obtain ⟨begins, reads⟩ := readsAs_layOut numeral (Int.ofNat kept.length + k + Int.ofNat dropped)
  apply reads_signed negative begins
  intro rest ends
  obtain ⟨d', k', read, same, most⟩ := reads negative ends
  have place : Int.ofNat kept.length + k + Int.ofNat dropped - kept.length = dropped + k := by
    show (kept.length : Int) + k + dropped - kept.length = _
    omega
  -- The digits that are read stand for the shortest decimal.
  have same : (d' : ℚ) * 10 ^ k' = d * 10 ^ k := by
    rw [same, place, zpow_add₀ (by norm_num), zpow_natCast, value, Nat.cast_mul, Nat.cast_pow, Nat.cast_ofNat]
    ring
  have long : d'.log2 ≤ 6000 := by
    apply short
    calc d' ≤ Decimal.value kept * 10 ^ 17 := most
      _ ≤ d * 10 ^ 17 := by
        rw [value]
        gcongr
        exact Nat.le_mul_of_pos_right _ (by positivity)
  have float : Number.ofDecimal negative d' k' = x := by
    apply Number.ofDecimal_of_rounds hx pos long
    rw [same]
    exact rounds
  rw [read, float]

theorem reads_infinity (hx : Number.Binary64.ofFloat x = .infinite negative) :
    Reads ((if negative then ['-'] else []) ++ "Infinity".toList) (.float x) := by
  have bits := Number.ofBits_eq_infinite x.toBits.toBitVec.isLt hx
  cases negative with
  | false =>
    have same : x = Float.ofBits 0x7FF0000000000000 := by
      rw [← Float.ofBits_toBits x]
      congr 1
      exact UInt64.toNat_inj.1 bits
    rw [same]
    refine ⟨⟨'I', _, rfl, by decide, by decide, by decide⟩, fun {fuel rest} _ enough => ?_⟩
    obtain ⟨fuel, rfl⟩ := exists_fuel (by decide) enough
    exact value_of_word (by decide) (by decide) (by decide) fuel rfl
  | true =>
    have same : x = Float.ofBits 0xFFF0000000000000 := by
      rw [← Float.ofBits_toBits x]
      congr 1
      exact UInt64.toNat_inj.1 bits
    rw [same]
    refine ⟨⟨'-', _, rfl, by decide, by decide, by decide⟩, fun {fuel rest} _ enough => ?_⟩
    obtain ⟨fuel, rfl⟩ := exists_fuel (by decide) enough
    exact value_of_word (by decide) (by decide) (by decide) fuel rfl

theorem reads_nan (hx : Number.Binary64.ofFloat x = .nan) : Reads "NaN".toList (.float x) := by
  have same : x = Float.ofBits 0x7FF8000000000000 := Number.eq_nan hx
  rw [same]
  refine ⟨⟨'N', _, rfl, by decide, by decide, by decide⟩, fun {fuel rest} _ enough => ?_⟩
  obtain ⟨fuel, rfl⟩ := exists_fuel (by decide) enough
  exact value_of_word (by decide) (by decide) (by decide) fuel rfl

/-- Every float is read as it was printed. -/
theorem reads_floatText (x : Float) : Reads (floatText x) (.float x) := by
  unfold floatText Number.Binary64.textWith
  match hx : Number.Binary64.ofFloat x with
  | .nan => exact reads_nan hx
  | .infinite negative => exact reads_infinity hx
  | .finite negative m e =>
    dsimp only
    by_cases zero : m = 0
    · subst zero
      rw [if_pos rfl]
      exact reads_zero hx
    · rw [if_neg zero]
      exact reads_shortest hx (Nat.pos_of_ne_zero zero)

end

end Json

end SealedFields
