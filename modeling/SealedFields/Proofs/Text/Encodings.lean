import SealedFields.Base64
import SealedFields.Proofs.Outcome
import SealedFields.Text.Utf8

/-!
# Bytes as text and back

Hexadecimal text, Base64 and UTF-8 are read back as what was written.
-/

namespace SealedFields

/-! ## 1. Hexadecimal -/

namespace Hex

theorem digit?_digit {n : Nat} (small : n < 16) : digit? (digit n) = some n := by
  -- There are sixteen digits to look at.
  have all : ∀ n : Fin 16, digit? (digit n.val) = some n.val := by decide
  exact all ⟨n, small⟩

theorem isBlank_digit {n : Nat} (small : n < 16) : isBlank (digit n) = false := by
  have all : ∀ n : Fin 16, isBlank (digit n.val) = false := by decide
  exact all ⟨n, small⟩

theorem encode_cons (b : UInt8) (bs : Bytes) :
    encode (b :: bs) = digit (b.toNat / 16) :: digit (b.toNat % 16) :: encode bs := rfl

theorem decode_encode (bs : Bytes) : decode (encode bs) = some bs := by
  induction bs with
  | nil => rfl
  | cons b bs ih =>
    have small := b.toNat_lt
    have high : b.toNat / 16 < 16 := by omega
    have low : b.toNat % 16 < 16 := by omega
    -- A byte is its two halves.
    have whole : b.toNat / 16 * 16 + b.toNat % 16 = b.toNat := by omega
    rw [encode_cons, decode, isBlank_digit high, digit?_digit high, digit?_digit low, ih]
    show some (UInt8.ofNat (b.toNat / 16 * 16 + b.toNat % 16) :: bs) = _
    rw [whole, UInt8.ofNat_toNat]

theorem ofText?_toText (bs : Bytes) : ofText? (toText bs) = some bs := by
  unfold ofText? toText
  rw [Text.chars?_ofChars]
  exact decode_encode bs

theorem toText_injective : Function.Injective toText := by
  intro bs bs' h
  have read := congrArg ofText? h
  rw [ofText?_toText, ofText?_toText] at read
  exact Option.some.inj read

end Hex

/-! ## 2. Base64 -/

namespace Base64

theorem digit?_digit {n : Nat} (small : n < 64) : digit? (digit n) = some n := by
  have all : ∀ n : Fin 64, digit? (digit n.val) = some n.val := by decide
  exact all ⟨n, small⟩

theorem digit_ne_padding {n : Nat} (small : n < 64) : digit n ≠ '=' := by
  have all : ∀ n : Fin 64, digit n.val ≠ '=' := by decide
  exact all ⟨n, small⟩

theorem all_padding_encode (bs : Bytes) : (encode bs).all (· == '=') = bs.isEmpty := by
  have first : ∀ (a : UInt8) (cs : List Char), (digit (a.toNat / 4) :: cs).all (· == '=') = false := by
    intro a cs
    have small := a.toNat_lt
    have ne := digit_ne_padding (show a.toNat / 4 < 64 by omega)
    simp [ne]
  match bs with
  | [] => rfl
  | [a] => exact first a _
  | [a, b] => exact first a _
  | a :: b :: c :: bs => exact first a _

theorem byte_eq {high low : Nat} {b : UInt8} (h : high + low = b.toNat) : byte high low = b := by
  rw [byte, h, UInt8.ofNat_toNat]

theorem decode_encode (bs : Bytes) : decode (encode bs) = some bs := by
  -- Three bytes are four digits; one or two bytes at the end are padded.
  induction bs using encode.induct with
  | case1 => rfl
  | case2 a =>
    have ha := a.toNat_lt
    rw [encode, decode, digit?_digit (by omega), digit?_digit (by omega)]
    show some [byte _ _] = _
    rw [byte_eq (b := a) (by omega)]
  | case3 a b =>
    have ha := a.toNat_lt
    have hb := b.toNat_lt
    rw [encode, decode, digit?_digit (by omega), digit?_digit (by omega), digit?_digit (by omega)]
    · show some [byte _ _, byte _ _] = _
      rw [byte_eq (b := a) (by omega), byte_eq (b := b) (by omega)]
    · exact digit_ne_padding (by omega)
  | case4 a b c bs ih =>
    have ha := a.toNat_lt
    have hb := b.toNat_lt
    have hc := c.toNat_lt
    -- Each byte is put together from parts of two digits.
    have group : ∀ {rest : Bytes}, [byte (a.toNat / 4 * 4) ((a.toNat % 4 * 16 + b.toNat / 16) / 16),
        byte ((a.toNat % 4 * 16 + b.toNat / 16) % 16 * 16) ((b.toNat % 16 * 4 + c.toNat / 64) / 4),
        byte ((b.toNat % 16 * 4 + c.toNat / 64) % 4 * 64) (c.toNat % 64)] ++ rest = a :: b :: c :: rest := by
      intro rest
      rw [byte_eq (b := a) (by omega), byte_eq (b := b) (by omega), byte_eq (b := c) (by omega)]
      rfl
    rw [encode, decode, digit?_digit (by omega), digit?_digit (by omega), digit?_digit (by omega),
      digit?_digit (by omega)]
    · -- What follows is padding only if nothing follows.
      show (if (encode bs).all (· == '=') then some _ else (decode (encode bs)).bind _) = _
      rw [all_padding_encode, ih]
      cases bs with
      | nil => exact congrArg some group
      | cons d bs => exact congrArg some group
    · exact fun _ h _ => digit_ne_padding (by omega) h
    · exact fun h _ => digit_ne_padding (by omega) h

/-- Base64 is ASCII, without blanks. -/
theorem encode_plain (bs : Bytes) : ∀ c ∈ encode bs, 0x20 < c.toNat ∧ c.toNat < 0x7F := by
  have plain : ∀ {n : Nat}, n < 64 → 0x20 < (digit n).toNat ∧ (digit n).toNat < 0x7F := by
    have all : ∀ n : Fin 64, 0x20 < (digit n.val).toNat ∧ (digit n.val).toNat < 0x7F := by decide
    exact fun {n} small => all ⟨n, small⟩
  have padding : 0x20 < '='.toNat ∧ '='.toNat < 0x7F := by decide
  induction bs using encode.induct with
  | case1 => exact fun c hc => absurd hc List.not_mem_nil
  | case2 a =>
    have ha := a.toNat_lt
    rw [encode]
    simp only [List.forall_mem_cons, List.not_mem_nil, false_implies, implies_true, and_true]
    exact ⟨plain (by omega), plain (by omega), padding, padding⟩
  | case3 a b =>
    have ha := a.toNat_lt
    have hb := b.toNat_lt
    rw [encode]
    simp only [List.forall_mem_cons, List.not_mem_nil, false_implies, implies_true, and_true]
    exact ⟨plain (by omega), plain (by omega), plain (by omega), padding⟩
  | case4 a b c bs ih =>
    have ha := a.toNat_lt
    have hb := b.toNat_lt
    have hc := c.toNat_lt
    rw [encode]
    simp only [List.forall_mem_cons]
    exact ⟨plain (by omega), plain (by omega), plain (by omega), plain (by omega), ih⟩

end Base64

/-! ## 3. UTF-8 -/

namespace Utf8

theorem toNat_ofNat {n : Nat} (small : n < 256) : (UInt8.ofNat n).toNat = n := UInt8.toNat_ofNat_of_lt' small

theorem isTail_tail {n : Nat} (small : n < 64) : isTail (UInt8.ofNat (0x80 + n)) = true := by
  unfold isTail
  rw [toNat_ofNat (by omega), Bool.and_eq_true, decide_eq_true_iff, decide_eq_true_iff]
  omega

theorem low_tail {n : Nat} (small : n < 64) : low (UInt8.ofNat (0x80 + n)) = n := by
  unfold low
  rw [toNat_ofNat (by omega)]
  omega

theorem scalar?_toNat {c : Char} {least : Nat} (h : least ≤ c.toNat) : scalar? least c.toNat = some c := by
  unfold scalar?
  rw [if_pos ⟨h, c.valid⟩, Char.ofNat_toNat]

section

variable {a b c d : UInt8} {s : Bytes} {ch : Char}

theorem first?_one (lead : a.toNat < 0x80) : first? a s = some (Char.ofNat a.toNat, 0) := if_pos lead

theorem first?_two (lead : a.toNat / 32 = 6) (hb : isTail b = true)
    (value : scalar? 0x80 (a.toNat % 32 * 64 + low b) = some ch) : first? a (b :: s) = some (ch, 1) := by
  have long : ¬ a.toNat < 0x80 := by omega
  unfold first?
  dsimp only
  rw [if_neg long, hb, Bool.not_true, if_neg Bool.false_ne_true, if_pos lead, value]
  rfl

theorem first?_three (lead : a.toNat / 16 = 14) (hb : isTail b = true) (hc : isTail c = true)
    (value : scalar? 0x800 (a.toNat % 16 * 4096 + low b * 64 + low c) = some ch) :
    first? a (b :: c :: s) = some (ch, 2) := by
  have long : ¬ a.toNat < 0x80 := by omega
  have longer : ¬ a.toNat / 32 = 6 := by omega
  unfold first?
  dsimp only
  rw [if_neg long, hb, hc, Bool.not_true, if_neg Bool.false_ne_true, if_neg longer,
    if_neg Bool.false_ne_true, if_pos lead, value]
  rfl

theorem first?_four (lead : a.toNat / 8 = 30) (hb : isTail b = true) (hc : isTail c = true)
    (hd : isTail d = true)
    (value : scalar? 0x10000 (a.toNat % 8 * 262144 + low b * 4096 + low c * 64 + low d) = some ch) :
    first? a (b :: c :: d :: s) = some (ch, 3) := by
  have long : ¬ a.toNat < 0x80 := by omega
  have longer : ¬ a.toNat / 32 = 6 := by omega
  have longest : ¬ a.toNat / 16 = 14 := by omega
  unfold first?
  dsimp only
  rw [if_neg long, hb, hc, hd, Bool.not_true, if_neg Bool.false_ne_true, if_neg longer,
    if_neg Bool.false_ne_true, if_neg longest, if_neg Bool.false_ne_true, if_pos lead, value]
  rfl

theorem decodeFrom_of_first? {tails : Nat} (first : first? a s = some (ch, tails)) :
    decodeFrom 0 (a :: s) = (decodeFrom tails s).map (ch :: ·) := by
  rw [decodeFrom, first]

end

/-- A character is read back from its one to four bytes. -/
theorem decode_encodeChar (c : Char) (bs : Bytes) :
    decode (encodeChar c ++ bs) = (decode bs).map (c :: ·) := by
  -- Code points end below 0x110000, so that four bytes are enough.
  have most : c.toNat < 0x110000 := by
    rcases c.valid with h | ⟨-, h⟩
    · exact Nat.lt_trans h (by decide)
    · exact h
  unfold encodeChar
  dsimp only
  -- The four ranges of code points have one to four bytes; the lead byte tells how many.
  split
  case isTrue one =>
    show decodeFrom 0 (UInt8.ofNat c.toNat :: bs) = _
    have lead : (UInt8.ofNat c.toNat).toNat = c.toNat := toNat_ofNat (by omega)
    rw [decodeFrom_of_first? (first?_one (by omega)), lead, Char.ofNat_toNat]
    rfl
  split
  case isTrue two =>
    show decodeFrom 0 (UInt8.ofNat (0xC0 + c.toNat / 64) :: UInt8.ofNat (0x80 + c.toNat % 64) :: bs) = _
    have lead : (UInt8.ofNat (0xC0 + c.toNat / 64)).toNat = 0xC0 + c.toNat / 64 := toNat_ofNat (by omega)
    have whole : (0xC0 + c.toNat / 64) % 32 * 64 + c.toNat % 64 = c.toNat := by omega
    refine decodeFrom_of_first? (first?_two (by omega) (isTail_tail (by omega)) ?_)
    rw [low_tail (by omega), lead, whole, scalar?_toNat (by omega)]
  split
  case isTrue three =>
    show decodeFrom 0 (UInt8.ofNat (0xE0 + c.toNat / 4096) :: UInt8.ofNat (0x80 + c.toNat / 64 % 64) ::
      UInt8.ofNat (0x80 + c.toNat % 64) :: bs) = _
    have lead : (UInt8.ofNat (0xE0 + c.toNat / 4096)).toNat = 0xE0 + c.toNat / 4096 := toNat_ofNat (by omega)
    have whole : (0xE0 + c.toNat / 4096) % 16 * 4096 + c.toNat / 64 % 64 * 64 + c.toNat % 64 = c.toNat := by
      omega
    refine decodeFrom_of_first? (first?_three (by omega) (isTail_tail (by omega)) (isTail_tail (by omega)) ?_)
    rw [low_tail (by omega), low_tail (by omega), lead, whole, scalar?_toNat (by omega)]
  case isFalse four =>
    show decodeFrom 0 (UInt8.ofNat (0xF0 + c.toNat / 262144) :: UInt8.ofNat (0x80 + c.toNat / 4096 % 64) ::
      UInt8.ofNat (0x80 + c.toNat / 64 % 64) :: UInt8.ofNat (0x80 + c.toNat % 64) :: bs) = _
    have lead : (UInt8.ofNat (0xF0 + c.toNat / 262144)).toNat = 0xF0 + c.toNat / 262144 :=
      toNat_ofNat (by omega)
    have whole : (0xF0 + c.toNat / 262144) % 8 * 262144 + c.toNat / 4096 % 64 * 4096 +
        c.toNat / 64 % 64 * 64 + c.toNat % 64 = c.toNat := by omega
    refine decodeFrom_of_first? (first?_four (by omega) (isTail_tail (by omega)) (isTail_tail (by omega))
      (isTail_tail (by omega)) ?_)
    rw [low_tail (by omega), low_tail (by omega), low_tail (by omega), lead, whole, scalar?_toNat (by omega)]

/-- UTF-8 text is read back. -/
theorem decode_encode (cs : List Char) : decode (encode cs) = some cs := by
  induction cs with
  | nil => rfl
  | cons c cs ih =>
    show decode (encodeChar c ++ encode cs) = _
    rw [decode_encodeChar, ih]
    rfl

end Utf8

theorem Text.eq_ofChars_of_chars? {t : Text} {cs : List Char} (h : t.chars? = some cs) : t = ofChars cs := by
  induction Outcome.mapM_eq_some_iff.1 h with
  | nil => rfl
  | @cons p c t cs hp rest ih =>
    -- A surrogate half is no character.
    cases p with
    | surrogate half => cases hp
    | scalar c' =>
      obtain rfl := Option.some.inj hp
      rw [ih (Outcome.mapM_eq_some_iff.2 rest)]
      rfl

/-- Texts with the same UTF-8 bytes are the same. -/
theorem Text.utf8?_inj {t u : Text} {bs : Bytes} (ht : t.utf8? = some bs) (hu : u.utf8? = some bs) : t = u := by
  obtain ⟨cs, hcs, rfl⟩ := Option.map_eq_some_iff.1 ht
  obtain ⟨ds, hds, same⟩ := Option.map_eq_some_iff.1 hu
  have read := congrArg Utf8.decode same
  rw [Utf8.decode_encode, Utf8.decode_encode] at read
  rw [Text.eq_ofChars_of_chars? hcs, Text.eq_ofChars_of_chars? hds, Option.some.inj read]

theorem Text.exists_utf8? {t : Text} (h : t.isWellFormed = true) : ∃ bs, t.utf8? = some bs := by
  have all : ∃ cs, t.chars? = some cs := by
    induction t with
    | nil => exact ⟨[], rfl⟩
    | cons p t ih =>
      obtain ⟨first, rest⟩ := Bool.and_eq_true_iff.1 h
      obtain ⟨c, hc⟩ := Option.isSome_iff_exists.1 first
      obtain ⟨cs, hcs⟩ := ih rest
      exact ⟨c :: cs, Outcome.mapM_eq_some_iff.2 (.cons hc (Outcome.mapM_eq_some_iff.1 hcs))⟩
  obtain ⟨cs, hcs⟩ := all
  exact ⟨Utf8.encode cs, by rw [Text.utf8?, hcs]; rfl⟩

theorem Text.isWellFormed_ofChars (cs : List Char) : (Text.ofChars cs).isWellFormed = true := by
  simp [Text.isWellFormed, Text.ofChars, CodePoint.scalar?]

end SealedFields
