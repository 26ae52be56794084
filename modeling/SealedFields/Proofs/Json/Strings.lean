import SealedFields.Json.Printer
import SealedFields.Json.Reader
import SealedFields.Proofs.Text.Encodings

/-!
# Strings in JSON

A printed string is read back. Characters beyond the basic plane are printed as two escapes, which the
reader joins.
-/

namespace SealedFields.Json

/-! ## 1. Escapes of 16-bit numbers -/

theorem hexUnit?_digits {n : Nat} (small : n < 0x10000) : ∃ a b c d,
    Text.hexDigits 4 n = [a, b, c, d] ∧ hexUnit? a b c d = some n := by
  -- The four digits are the number to the base 16.
  refine ⟨Hex.digit (n / 16 / 16 / 16 % 16), Hex.digit (n / 16 / 16 % 16), Hex.digit (n / 16 % 16),
    Hex.digit (n % 16), rfl, ?_⟩
  unfold hexUnit?
  rw [Hex.digit?_digit (by omega), Hex.digit?_digit (by omega), Hex.digit?_digit (by omega),
    Hex.digit?_digit (by omega)]
  show some _ = some n
  rw [Option.some.injEq]
  omega

/-- The escape of a number that is no high half stands for its code point, whatever follows. -/
theorem unitEscape_of_not_high {n : Nat} (h : isHighHalf n = false) (cs : List Char) :
    unitEscape n cs = (.ofUnit n, cs) := by
  unfold unitEscape
  split
  case h_1 =>
    split
    case h_1 m _ =>
      rw [h]
      rfl
    case h_2 => rfl
  case h_2 => rfl

theorem unitEscape_of_halves {high low : Nat} (hh : isHighHalf high = true) (hl : isLowHalf low = true)
    (cs : List Char) : unitEscape high (unitEscapeText low ++ cs) = (.scalar (joinHalves high low), cs) := by
  -- The second escape is read as a number again, and recognised as a low half.
  have small : low < 0x10000 := by
    unfold isLowHalf at hl
    rw [Bool.and_eq_true, decide_eq_true_iff, decide_eq_true_iff] at hl
    omega
  obtain ⟨a, b, c, d, digits, value⟩ := hexUnit?_digits small
  unfold unitEscapeText
  rw [digits]
  show unitEscape high ('\\' :: 'u' :: a :: b :: c :: d :: cs) = _
  rw [unitEscape, value]
  dsimp only
  rw [hh, hl]
  rfl

/-! ## 2. Single characters -/

section

variable {fuel : Nat} {rest : List Char} {c : Char}

def prepend (p : CodePoint) (r : Read Text) : Read Text := r.map fun x => (p :: x.1, x.2)

theorem stringBody_unit {n : Nat} (small : n < 0x10000) (cs : List Char) :
    stringBody (fuel + 1) (unitEscapeText n ++ cs)
      = prepend (unitEscape n cs).1 (stringBody fuel (unitEscape n cs).2) := by
  obtain ⟨a, b, c, d, digits, value⟩ := hexUnit?_digits small
  unfold unitEscapeText
  rw [digits]
  show stringBody (fuel + 1) ('\\' :: 'u' :: a :: b :: c :: d :: cs) = _
  rw [stringBody]
  dsimp only
  rw [value]
  rfl

theorem stringBody_short {e : Char} (escape : shortEscape? e = some c) (other : e ≠ 'u') (cs : List Char) :
    stringBody (fuel + 1) ('\\' :: e :: cs) = prepend (.scalar c) (stringBody fuel cs) := by
  rw [stringBody, escape]
  · rfl
  · exact fun _ _ _ _ _ h _ => other h

theorem stringBody_plain (printable : 0x20 ≤ c.toNat) (noQuote : c ≠ '"') (noEscape : c ≠ '\\') (cs : List Char) :
    stringBody (fuel + 1) (c :: cs) = prepend (.scalar c) (stringBody fuel cs) := by
  have plain : ¬ (c.toNat < 0x20 ∨ c = '\\') := by
    rintro (h | h)
    · omega
    · exact noEscape h
  rw [stringBody, if_neg plain]
  · rfl
  · exact noQuote
  · exact fun _ _ _ _ _ h _ => noEscape h
  · exact fun _ _ h _ => noEscape h

theorem ofUnit_toNat (c : Char) : CodePoint.ofUnit c.toNat = .scalar c := by
  have scalar : ¬ (0xD800 ≤ c.toNat ∧ c.toNat < 0xE000) := by
    rcases c.valid with h | ⟨h, -⟩
    · exact fun ⟨h', _⟩ => absurd h (Nat.not_lt.2 h')
    · exact fun ⟨_, h'⟩ => absurd h' (Nat.not_lt.2 h)
  unfold CodePoint.ofUnit
  rw [dif_neg scalar, Char.ofNat_toNat]

theorem stringBody_basic (basic : c.toNat < 0x10000) (cs : List Char) :
    stringBody (fuel + 1) (unitEscapeText c.toNat ++ cs) = prepend (.scalar c) (stringBody fuel cs) := by
  -- A character is no surrogate, so that its number is taken for itself.
  have noHalf : isHighHalf c.toNat = false := by
    unfold isHighHalf
    rw [Bool.and_eq_false_iff, decide_eq_false_iff_not, decide_eq_false_iff_not]
    rcases c.valid with h | ⟨h, -⟩
    · exact .inl (Nat.not_le.2 h)
    · exact .inr fun h' => absurd (Nat.lt_trans h' (by decide)) (Nat.not_lt.2 h)
  rw [stringBody_unit basic, unitEscape_of_not_high noHalf, ofUnit_toNat]

/-- A character beyond the basic plane, escaped as two halves. -/
theorem stringBody_astral {n : Nat} (astral : c.toNat = 0x10000 + n) (cs : List Char) :
    stringBody (fuel + 1) (unitEscapeText (0xD800 + n / 1024) ++ unitEscapeText (0xDC00 + n % 1024) ++ cs)
      = prepend (.scalar c) (stringBody fuel cs) := by
  have most : c.toNat < 0x110000 := by
    rcases c.valid with h | ⟨-, h⟩
    · exact Nat.lt_trans h (by decide)
    · exact h
  have high : isHighHalf (0xD800 + n / 1024) = true := by
    unfold isHighHalf
    rw [Bool.and_eq_true, decide_eq_true_iff, decide_eq_true_iff]
    omega
  have low : isLowHalf (0xDC00 + n % 1024) = true := by
    unfold isLowHalf
    rw [Bool.and_eq_true, decide_eq_true_iff, decide_eq_true_iff]
    omega
  -- The halves hold the upper and the lower ten bits of what is left above the plane.
  have joined : joinHalves (0xD800 + n / 1024) (0xDC00 + n % 1024) = c := by
    have whole : 0x10000 + (0xD800 + n / 1024 - 0xD800) * 1024 + (0xDC00 + n % 1024 - 0xDC00) = c.toNat := by omega
    unfold joinHalves
    rw [whole, Char.ofNat_toNat]
  rw [List.append_assoc, stringBody_unit (by omega), unitEscape_of_halves high low, joined]

end

/-- A printed character is read back. -/
theorem stringBody_pointText (c : Char) (fuel : Nat) (cs : List Char) :
    stringBody (fuel + 1) (pointText (.scalar c) ++ cs) = prepend (.scalar c) (stringBody fuel cs) := by
  -- The cases are those of the printer: short escapes, plain characters, one escape or two.
  unfold pointText
  dsimp only
  split
  case isTrue quote =>
    subst quote
    exact stringBody_short rfl (by decide) cs
  case isFalse noQuote =>
  split
  case isTrue escape =>
    subst escape
    exact stringBody_short rfl (by decide) cs
  case isFalse noEscape =>
  split
  case isTrue short =>
    subst short
    exact stringBody_short rfl (by decide) cs
  split
  case isTrue short =>
    subst short
    exact stringBody_short rfl (by decide) cs
  split
  case isTrue short =>
    subst short
    exact stringBody_short rfl (by decide) cs
  split
  case isTrue short =>
    subst short
    exact stringBody_short rfl (by decide) cs
  split
  case isTrue short =>
    subst short
    exact stringBody_short rfl (by decide) cs
  split
  case isTrue printable => exact stringBody_plain printable.1 noQuote noEscape cs
  split
  case isTrue basic => exact stringBody_basic basic cs
  case isFalse astral => exact stringBody_astral (by omega) cs

/-- The body of a printed string, up to its closing quote. -/
theorem stringBody_flatMap (cs rest : List Char) {fuel : Nat} (enough : cs.length < fuel) :
    stringBody fuel ((Text.ofChars cs).flatMap pointText ++ '"' :: rest) = .ok (Text.ofChars cs, rest) := by
  -- Each character takes one step of the reader, whatever the length of its escape.
  induction cs generalizing fuel with
  | nil =>
    obtain ⟨fuel, rfl⟩ := Nat.exists_eq_succ_of_ne_zero (Nat.ne_of_gt enough)
    rfl
  | cons c cs ih =>
    obtain ⟨fuel, rfl⟩ := Nat.exists_eq_succ_of_ne_zero (Nat.ne_of_gt (Nat.lt_of_le_of_lt (Nat.zero_le _) enough))
    have enough : cs.length < fuel := Nat.lt_of_succ_lt_succ enough
    show stringBody (fuel + 1) (pointText (.scalar c) ++ (Text.ofChars cs).flatMap pointText ++ '"' :: rest) = _
    rw [List.append_assoc, stringBody_pointText, ih enough]
    rfl

/-- No character is printed as nothing, so that the length of a string's text bounds its own. -/
theorem length_le_flatMap (cs : List Char) : cs.length ≤ ((Text.ofChars cs).flatMap pointText).length := by
  induction cs with
  | nil => exact Nat.zero_le _
  | cons c cs ih =>
    have some : pointText (.scalar c) ≠ [] := by
      unfold pointText
      dsimp only
      repeat' split
      all_goals exact List.cons_ne_nil _ _
    have pos := List.length_pos_iff.2 some
    show cs.length + 1 ≤ (pointText (.scalar c) ++ (Text.ofChars cs).flatMap pointText).length
    rw [List.length_append]
    omega

theorem stringText_eq (cs rest : List Char) : stringText (Text.ofChars cs) ++ rest
    = '"' :: ((Text.ofChars cs).flatMap pointText ++ '"' :: rest) := by
  show '"' :: (Text.ofChars cs).flatMap pointText ++ ['"'] ++ rest = _
  rw [List.append_assoc]
  rfl

end SealedFields.Json
