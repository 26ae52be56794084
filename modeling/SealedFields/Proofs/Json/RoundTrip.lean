import Mathlib.Data.List.Forall2
import SealedFields.Proofs.Entries
import SealedFields.Proofs.Json.Strings
import SealedFields.Proofs.Number.Decimal
import SealedFields.Proofs.Outcome

/-!
# Printed JSON is read back

The text of a value, with anything after it that can follow a value, is read as the value, and what
follows is left over. The fuel that a text needs is its length.
-/

namespace SealedFields.Json

/-! ## 1. Texts that are read as a value -/

/-- What may follow a value inside a compact document. -/
def Ends (rest : List Char) : Prop := ∀ c ∈ rest.head?, c = ',' ∨ c = ']' ∨ c = '\x7d'

theorem ends_nil : Ends [] := by
  intro c h
  cases h

theorem ends_cons {c : Char} (h : c = ',' ∨ c = ']' ∨ c = '\x7d') (rest : List Char) : Ends (c :: rest) := by
  intro d hd
  obtain rfl := Option.some.inj hd
  exact h

/-- A text that begins like a value does, neither with space nor with the end of a list or an object. -/
def Begins (cs : List Char) : Prop :=
  ∃ c tail, cs = c :: tail ∧ isSpace c = false ∧ c ≠ ']' ∧ c ≠ '\x7d'

/-- A text that is read as a value, whatever follows. -/
structure Reads (cs : List Char) (v : Value) : Prop where
  begins : Begins cs
  reads : ∀ {fuel : Nat} {rest : List Char}, Ends rest → cs.length ≤ fuel →
    value fuel (cs ++ rest) = .ok (v, rest)

/-- Whatever takes at least one step has one to take. -/
theorem exists_fuel {n fuel : Nat} (pos : 0 < n) (enough : n ≤ fuel) : ∃ less, fuel = less + 1 :=
  Nat.exists_eq_succ_of_ne_zero (Nat.ne_of_gt (Nat.lt_of_lt_of_le pos enough))

theorem skipSpace_cons {c : Char} (h : isSpace c = false) (cs : List Char) : skipSpace (c :: cs) = c :: cs :=
  List.dropWhile_cons_of_neg (by rw [h]; exact Bool.false_ne_true)

theorem Begins.skipSpace {cs : List Char} (h : Begins cs) (rest : List Char) :
    skipSpace (cs ++ rest) = cs ++ rest := by
  obtain ⟨c, tail, rfl, noSpace, -, -⟩ := h
  exact skipSpace_cons noSpace (tail ++ rest)

/-- A document that is read as a value. -/
theorem Reads.document {cs : List Char} {v : Value} (h : Reads cs v) : read cs = .ok v := by
  -- The reader starts with more fuel than the text is long.
  have whole : value (2 * cs.length + 2) (cs ++ []) = .ok (v, []) := h.reads ends_nil (by omega)
  have start := h.begins.skipSpace []
  rw [List.append_nil] at whole start
  rw [read, start, whole]
  rfl

/-! ## 2. Words and numbers -/

section

variable {c : Char} {cs : List Char}

theorem value_of_word (noString : c ≠ '"') (noList : c ≠ '[') (noObject : c ≠ '\x7b') (fuel : Nat)
    {found : Value × List Char} (word : word? (c :: cs) = some found) :
    value (fuel + 1) (c :: cs) = .ok found := by
  rw [value, word]
  · exact fun _ h => noString (List.cons.inj h).1
  · exact fun _ h => noList (List.cons.inj h).1
  · exact fun _ h => noObject (List.cons.inj h).1

theorem value_of_number (noString : c ≠ '"') (noList : c ≠ '[') (noObject : c ≠ '\x7b') (fuel : Nat)
    (noWord : word? (c :: cs) = none) : value (fuel + 1) (c :: cs) = number (c :: cs) := by
  rw [value, noWord]
  · exact fun _ h => noString (List.cons.inj h).1
  · exact fun _ h => noList (List.cons.inj h).1
  · exact fun _ h => noObject (List.cons.inj h).1

end

theorem reads_null : Reads ['n', 'u', 'l', 'l'] .null where
  begins := ⟨'n', ['u', 'l', 'l'], rfl, by decide, by decide, by decide⟩
  reads {fuel rest} _ enough := by
    obtain ⟨fuel, rfl⟩ := exists_fuel (by decide) enough
    exact value_of_word (by decide) (by decide) (by decide) fuel rfl

theorem reads_true : Reads ['t', 'r', 'u', 'e'] (.bool true) where
  begins := ⟨'t', ['r', 'u', 'e'], rfl, by decide, by decide, by decide⟩
  reads {fuel rest} _ enough := by
    obtain ⟨fuel, rfl⟩ := exists_fuel (by decide) enough
    exact value_of_word (by decide) (by decide) (by decide) fuel rfl

theorem reads_false : Reads ['f', 'a', 'l', 's', 'e'] (.bool false) where
  begins := ⟨'f', ['a', 'l', 's', 'e'], rfl, by decide, by decide, by decide⟩
  reads {fuel rest} _ enough := by
    obtain ⟨fuel, rfl⟩ := exists_fuel (by decide) enough
    exact value_of_word (by decide) (by decide) (by decide) fuel rfl

/-- A digit begins no word. -/
theorem word?_digit {c : Char} (digit : Decimal.isDigit c = true) (cs : List Char) : word? (c :: cs) = none := by
  -- The words begin with one of six characters, none of them a digit.
  have ne : ∀ w : Char, Decimal.isDigit w = false → w ≠ c := by
    rintro w no rfl
    rw [digit] at no
    cases no
  have n := ne 'n' (by decide)
  have t := ne 't' (by decide)
  have f := ne 'f' (by decide)
  have N := ne 'N' (by decide)
  have I := ne 'I' (by decide)
  have m := ne '-' (by decide)
  simp [word?, words, after?, n, t, f, N, I, m]

theorem word?_minus {c : Char} (digit : Decimal.isDigit c = true) (cs : List Char) :
    word? ('-' :: c :: cs) = none := by
  have I : 'I' ≠ c := by
    rintro rfl
    exact absurd digit (by decide)
  simp [word?, words, after?, I]

theorem Ends.noDigit {rest : List Char} (ends : Ends rest) : ∀ c ∈ rest.head?, Decimal.isDigit c = false := by
  intro c hc
  rcases ends c hc with rfl | rfl | rfl
  · decide
  · decide
  · decide

theorem wholeDigits?_ofNat (n : Nat) {rest : List Char} (ends : ∀ c ∈ rest.head?, Decimal.isDigit c = false) :
    wholeDigits? (Decimal.ofNat n ++ rest) = some (Decimal.ofNat n, rest) := by
  rcases Nat.eq_zero_or_pos n with rfl | pos
  · rw [Decimal.ofNat_small (by decide)]
    rfl
  · obtain ⟨c, cs, digits, ne⟩ := Decimal.head_ofNat pos
    have run := Decimal.digitRun_append (Decimal.isDigit_ofNat n) ends
    rw [digits] at run ⊢
    rw [List.cons_append, wholeDigits?]
    · dsimp only
      rw [← List.cons_append, run]
      rfl
    · exact fun _ h => ne (List.cons.inj h).1

theorem fractionDigits_of_ends {rest : List Char} (ends : Ends rest) : fractionDigits rest = ([], rest) := by
  cases rest with
  | nil => rfl
  | cons c rest =>
    rw [fractionDigits]
    rintro _ h
    rcases ends c rfl with rfl | rfl | rfl
    all_goals exact absurd (List.cons.inj h).1 (by decide)

theorem exponentPart_of_ends {rest : List Char} (ends : Ends rest) : exponentPart rest = (none, rest) := by
  cases rest with
  | nil => rfl
  | cons c rest =>
    have no : ¬ (c = 'e' ∨ c = 'E') := by
      rcases ends c rfl with rfl | rfl | rfl
      all_goals decide
    exact if_neg no

theorem exists_digit (n : Nat) : ∃ c cs, Decimal.ofNat n = c :: cs ∧ Decimal.isDigit c = true := by
  cases digits : Decimal.ofNat n with
  | nil => exact absurd digits (Decimal.ofNat_ne_nil n)
  | cons c cs =>
    have all := Decimal.isDigit_ofNat n
    rw [digits] at all
    exact ⟨c, cs, rfl, all c List.mem_cons_self⟩

section

variable {n : Nat} {rest : List Char}

theorem length_numeral (short : n < Nat.pow 10 Decimal.maxDigits) :
    ¬ (Decimal.ofNat n).length > Decimal.maxDigits :=
  Nat.not_lt.2 (Decimal.length_ofNat Decimal.maxDigits_pos short)

theorem magnitude_ofNat (negative : Bool) (short : n < Nat.pow 10 Decimal.maxDigits) (ends : Ends rest) :
    magnitude negative (Decimal.ofNat n ++ rest) = .ok (.int (if negative then -(n : Int) else n), rest) := by
  have whole := wholeDigits?_ofNat n ends.noDigit
  have long := length_numeral short
  unfold magnitude
  rw [whole]
  dsimp only
  -- Neither a point nor an exponent follows, so that the numeral is an integer.
  rw [fractionDigits_of_ends ends]
  dsimp only
  rw [exponentPart_of_ends ends]
  dsimp only
  rw [Decimal.value_ofNat, if_neg long]
  rfl

theorem number_ofNat (short : n < Nat.pow 10 Decimal.maxDigits) (ends : Ends rest) :
    number (Decimal.ofNat n ++ rest) = .ok (.int n, rest) := by
  obtain ⟨c, cs, digits, digit⟩ := exists_digit n
  -- The numeral begins with a digit, hence not with a minus.
  have unsigned : number (Decimal.ofNat n ++ rest) = magnitude false (Decimal.ofNat n ++ rest) := by
    rw [digits, List.cons_append, number]
    rintro _ h
    obtain rfl := (List.cons.inj h).1
    exact absurd digit (by decide)
  rw [unsigned, magnitude_ofNat false short ends]
  rfl

theorem number_minus (short : n < Nat.pow 10 Decimal.maxDigits) (ends : Ends rest) :
    number ('-' :: (Decimal.ofNat n ++ rest)) = .ok (.int (-(n : Int)), rest) :=
  magnitude_ofNat true short ends

end

theorem reads_ofNat {n : Nat} (short : n < Nat.pow 10 Decimal.maxDigits) : Reads (Decimal.ofNat n) (.int n) := by
  obtain ⟨c, cs, digits, digit⟩ := exists_digit n
  -- A digit is none of the characters by which the other values begin.
  have other : ∀ d, Decimal.isDigit d = false → c ≠ d := by
    rintro d no rfl
    rw [digit] at no
    cases no
  have noSpace : isSpace c = false := by
    have a := other ' ' (by decide)
    have b := other '\t' (by decide)
    have d := other '\n' (by decide)
    have e := other '\r' (by decide)
    simp [isSpace, a, b, d, e]
  refine ⟨⟨c, cs, digits, noSpace, other _ (by decide), other _ (by decide)⟩, fun {fuel rest} ends enough => ?_⟩
  rw [digits, List.length_cons] at enough
  obtain ⟨fuel, rfl⟩ := exists_fuel (Nat.succ_pos _) enough
  have number := number_ofNat short ends
  rw [digits, List.cons_append] at number ⊢
  rw [value_of_number (other _ (by decide)) (other _ (by decide)) (other _ (by decide)) fuel
    (word?_digit digit _), number]

theorem reads_minus {n : Nat} (short : n < Nat.pow 10 Decimal.maxDigits) :
    Reads ('-' :: Decimal.ofNat n) (.int (-(n : Int))) := by
  obtain ⟨c, cs, digits, digit⟩ := exists_digit n
  refine ⟨⟨'-', _, rfl, by decide, by decide, by decide⟩, fun {fuel rest} ends enough => ?_⟩
  obtain ⟨fuel, rfl⟩ := exists_fuel (Nat.succ_pos _) enough
  have number := number_minus short ends
  have noWord : word? ('-' :: (Decimal.ofNat n ++ rest)) = none := by
    rw [digits]
    exact word?_minus digit _
  rw [List.cons_append, value_of_number (by decide) (by decide) (by decide) fuel noWord, number]

/-- An integer that is printed is read back. -/
theorem reads_int {i : Int} {cs : List Char} (printed : Decimal.ofInt? i = some cs) : Reads cs (.int i) := by
  unfold Decimal.ofInt? at printed
  split at printed
  case isFalse => cases printed
  case isTrue short =>
    obtain rfl := Option.some.inj printed
    cases i with
    | ofNat n => exact reads_ofNat short
    | negSucc n => exact reads_minus short

/-! ## 3. Strings -/

theorem reads_text (t : List Char) : Reads (stringText (Text.ofChars t)) (.text (Text.ofChars t)) where
  begins := ⟨'"', _, rfl, by decide, by decide, by decide⟩
  reads {fuel rest} _ enough := by
    obtain ⟨fuel, rfl⟩ := exists_fuel (Nat.succ_pos _) enough
    -- The text of a string is at least as long as the string, so that the fuel is enough.
    have long := length_le_flatMap t
    rw [stringText_eq, value, stringBody_flatMap t rest]
    · rfl
    · rw [List.length_append]
      omega

/-! ## 4. Lists -/

theorem separated_cons (part next : List Char) (parts : List (List Char)) :
    separated [','] (part :: next :: parts) = part ++ ',' :: separated [','] (next :: parts) := by
  show part ++ [','] ++ separated [','] (next :: parts) = _
  rw [List.append_assoc]
  rfl

theorem Begins.append {cs : List Char} (h : Begins cs) (rest : List Char) : Begins (cs ++ rest) := by
  obtain ⟨c, tail, rfl, no⟩ := h
  exact ⟨c, tail ++ rest, rfl, no⟩

theorem begins_separated {part : List Char} (h : Begins part) (parts : List (List Char)) :
    Begins (separated [','] (part :: parts)) := by
  cases parts with
  | nil => exact h
  | cons next parts =>
    rw [separated_cons]
    exact h.append _

theorem items_separated {parts : List (List Char)} {vs : List Value} (each : List.Forall₂ Reads parts vs)
    (nonempty : parts ≠ []) {fuel : Nat} (rest : List Char)
    (enough : (separated [','] parts).length + 1 ≤ fuel) :
    items fuel (separated [','] parts ++ ']' :: rest) = .ok (vs, rest) := by
  -- Induction on the items; the fuel shrinks by one for each of them.
  induction each generalizing fuel with
  | nil => exact absurd rfl nonempty
  | @cons part v parts vs first more ih =>
    obtain ⟨fuel, rfl⟩ := exists_fuel (Nat.succ_pos _) enough
    cases parts with
    | nil =>
      cases more
      have read := first.reads (ends_cons (.inr (.inl rfl)) rest) (Nat.le_of_succ_le_succ enough)
      show items (fuel + 1) (part ++ ']' :: rest) = _
      rw [items, read]
      rfl
    | cons next parts =>
      rw [separated_cons] at enough ⊢
      rw [List.length_append, List.length_cons] at enough
      -- After the comma the next item begins at once.
      have start : skipSpace (separated [','] (next :: parts) ++ ']' :: rest)
          = separated [','] (next :: parts) ++ ']' :: rest := by
        cases more with
        | cons second _ => exact (begins_separated second.begins parts).skipSpace _
      have left : items fuel (separated [','] (next :: parts) ++ ']' :: rest) = .ok (vs, rest) :=
        ih (List.cons_ne_nil _ _) (by omega)
      have read : value fuel (part ++ ',' :: (separated [','] (next :: parts) ++ ']' :: rest)) = .ok (v, _) :=
        first.reads (ends_cons (.inl rfl) _) (by omega)
      rw [List.append_assoc, List.cons_append, items, read]
      show (items fuel (skipSpace _)).map _ = _
      rw [start, left]
      rfl

theorem reads_list {parts : List (List Char)} {vs : List Value} (each : List.Forall₂ Reads parts vs) :
    Reads ('[' :: separated [','] parts ++ [']']) (.list vs) where
  begins := ⟨'[', _, rfl, by decide, by decide, by decide⟩
  reads {fuel rest} _ enough := by
    obtain ⟨fuel, rfl⟩ := exists_fuel (Nat.succ_pos _) enough
    rw [List.length_append, List.length_cons, List.length_singleton] at enough
    show value (fuel + 1) ('[' :: (separated [','] parts ++ [']'] ++ rest)) = _
    rw [List.append_assoc, value]
    -- The empty list is told by its bracket, and no item begins with it.
    cases each with
    | nil => rfl
    | @cons part v parts vs first more =>
      have begins := (begins_separated first.begins parts).append ([']'] ++ rest)
      have start : skipSpace _ = _ := (begins_separated first.begins parts).skipSpace ([']'] ++ rest)
      have left : items fuel (separated [','] (part :: parts) ++ ']' :: rest) = .ok (v :: vs, rest) :=
        items_separated (.cons first more) (List.cons_ne_nil _ _) rest (by omega)
      obtain ⟨c, tail, text, -, noEnd, -⟩ := begins
      rw [start]
      split
      case h_1 h =>
        rw [text] at h
        exact absurd (List.cons.inj h).1 noEnd
      case h_2 =>
        show (items fuel (separated [','] (part :: parts) ++ ']' :: rest)).map _ = _
        rw [left]
        rfl

/-! ## 5. Objects -/

/-- The text of an entry that is read as the entry. -/
def ReadsEntry (part : List Char) (e : Text × Value) : Prop :=
  ∃ key text, part = stringText (Text.ofChars key) ++ ':' :: text ∧ e.1 = Text.ofChars key ∧ Reads text e.2

theorem ReadsEntry.begins {part : List Char} {e : Text × Value} (h : ReadsEntry part e) : Begins part := by
  obtain ⟨key, text, rfl, -, -⟩ := h
  exact ⟨'"', _, rfl, by decide, by decide, by decide⟩

section

variable {part rest : List Char} {e : Text × Value} {fuel : Nat}

theorem ReadsEntry.parts (h : ReadsEntry part e) (ends : Ends rest) (enough : part.length ≤ fuel) :
    ∃ tail, part ++ rest = '"' :: tail ∧ ∃ text,
      stringBody (tail.length + 1) tail = .ok (e.1, ':' :: (text ++ rest)) ∧
      skipSpace (text ++ rest) = text ++ rest ∧ value fuel (text ++ rest) = .ok (e.2, rest) := by
  obtain ⟨key, text, rfl, key_eq, reads⟩ := h
  have long := length_le_flatMap key
  rw [List.append_assoc, List.cons_append, stringText_eq]
  refine ⟨_, rfl, text, ?_, reads.begins.skipSpace rest, reads.reads ends ?_⟩
  · rw [key_eq]
    refine stringBody_flatMap key _ ?_
    rw [List.length_append]
    omega
  · rw [List.length_append, List.length_cons] at enough
    omega

theorem entries_last (h : ReadsEntry part e) (rest : List Char) (enough : part.length ≤ fuel) :
    entries (fuel + 1) (part ++ '\x7d' :: rest) = .ok ([e], rest) := by
  obtain ⟨tail, starts, text, key, noSpace, read⟩ := h.parts (ends_cons (.inr (.inr rfl)) rest) enough
  have colon : ∀ cs, skipSpace (':' :: cs) = ':' :: cs := fun _ => skipSpace_cons (by decide) _
  have brace : ∀ cs, skipSpace ('\x7d' :: cs) = '\x7d' :: cs := fun _ => skipSpace_cons (by decide) _
  rw [starts, entries, key]
  simp only [colon, noSpace, read, brace]

theorem entries_more (h : ReadsEntry part e) (rest : List Char) (enough : part.length ≤ fuel) :
    entries (fuel + 1) (part ++ ',' :: rest)
      = (entries fuel (skipSpace rest)).map fun x => (e :: x.1, x.2) := by
  obtain ⟨tail, starts, text, key, noSpace, read⟩ := h.parts (ends_cons (.inl rfl) rest) enough
  have colon : ∀ cs, skipSpace (':' :: cs) = ':' :: cs := fun _ => skipSpace_cons (by decide) _
  have comma : ∀ cs, skipSpace (',' :: cs) = ',' :: cs := fun _ => skipSpace_cons (by decide) _
  rw [starts, entries, key]
  simp only [colon, noSpace, read, comma]

end

theorem entries_separated {parts : List (List Char)} {es : Entries} (each : List.Forall₂ ReadsEntry parts es)
    (nonempty : parts ≠ []) {fuel : Nat} (rest : List Char)
    (enough : (separated [','] parts).length + 1 ≤ fuel) :
    entries fuel (separated [','] parts ++ '\x7d' :: rest) = .ok (es, rest) := by
  -- As for lists, with a key before each value.
  induction each generalizing fuel with
  | nil => exact absurd rfl nonempty
  | @cons part e parts es first more ih =>
    obtain ⟨fuel, rfl⟩ := exists_fuel (Nat.succ_pos _) enough
    cases parts with
    | nil =>
      cases more
      exact entries_last first rest (Nat.le_of_succ_le_succ enough)
    | cons next parts =>
      rw [separated_cons] at enough ⊢
      rw [List.length_append, List.length_cons] at enough
      have start : skipSpace (separated [','] (next :: parts) ++ '\x7d' :: rest)
          = separated [','] (next :: parts) ++ '\x7d' :: rest := by
        cases more with
        | cons second _ => exact (begins_separated second.begins parts).skipSpace _
      have left : entries fuel (separated [','] (next :: parts) ++ '\x7d' :: rest) = .ok (es, rest) :=
        ih (List.cons_ne_nil _ _) (by omega)
      rw [List.append_assoc, List.cons_append, entries_more first _ (by omega), start, left]
      rfl

theorem reads_dict {parts : List (List Char)} {es : Entries} (each : List.Forall₂ ReadsEntry parts es)
    (distinct : (es.map (·.1)).Nodup) :
    Reads ('\x7b' :: separated [','] parts ++ ['\x7d']) (.dict es) where
  begins := ⟨'\x7b', _, rfl, by decide, by decide, by decide⟩
  reads {fuel rest} _ enough := by
    obtain ⟨fuel, rfl⟩ := exists_fuel (Nat.succ_pos _) enough
    rw [List.length_append, List.length_cons, List.length_singleton] at enough
    show value (fuel + 1) ('\x7b' :: (separated [','] parts ++ ['\x7d'] ++ rest)) = _
    rw [List.append_assoc, value]
    -- The empty object is told by its brace, and no entry begins with it.
    cases each with
    | nil => rfl
    | @cons part e parts es first more =>
      have begins := (begins_separated first.begins parts).append (['\x7d'] ++ rest)
      have start : skipSpace _ = _ := (begins_separated first.begins parts).skipSpace (['\x7d'] ++ rest)
      have left : entries fuel (separated [','] (part :: parts) ++ '\x7d' :: rest) = .ok (e :: es, rest) :=
        entries_separated (.cons first more) (List.cons_ne_nil _ _) rest (by omega)
      obtain ⟨c, tail, text, -, -, noEnd⟩ := begins
      rw [start]
      split
      case h_1 h =>
        rw [text] at h
        exact absurd (List.cons.inj h).1 noEnd
      case h_2 =>
        show (entries fuel (separated [','] (part :: parts) ++ '\x7d' :: rest)).map _ = _
        rw [left]
        -- Distinct keys are all kept, in their order.
        show Except.ok (Value.dict (Entries.ofWrites (e :: es)), rest) = _
        rw [Entries.ofWrites_of_nodup distinct]

/-! ## 6. Values -/

/-- A value of which every part has a text that is read back. -/
inductive Readable : Value → Prop
  | null : Readable .null
  | bool (b : Bool) : Readable (.bool b)
  | int (i : Int) : Readable (.int i)
  | float (x : Float) (reads : Reads (floatText x) (.float x)) : Readable (.float x)
  | text (cs : List Char) : Readable (.text (Text.ofChars cs))
  | list (vs : List Value) (each : ∀ v ∈ vs, Readable v) : Readable (.list vs)
  | dict (es : Entries) (keys : ∀ e ∈ es, ∃ cs, e.1 = Text.ofChars cs) (distinct : (es.map (·.1)).Nodup)
    (each : ∀ e ∈ es, Readable e.2) : Readable (.dict es)

theorem printItems_eq_ok {l : Layout} {vs : List Value} {parts : List (List Char)}
    (printed : printItems l vs = .ok parts) : List.Forall₂ (fun part v => print l v = .ok part) parts vs := by
  induction vs generalizing parts with
  | nil =>
    obtain rfl := Except.ok.inj printed
    exact .nil
  | cons v vs ih =>
    rw [printItems] at printed
    obtain ⟨part, hp, printed⟩ := Outcome.bind_eq_ok_iff.1 printed
    obtain ⟨parts, hps, printed⟩ := Outcome.bind_eq_ok_iff.1 printed
    obtain rfl := Except.ok.inj printed
    exact .cons hp (ih hps)

theorem printEntries_eq_ok {l : Layout} {es : Entries} {parts : List (List Char)}
    (printed : printEntries l es = .ok parts) :
    List.Forall₂ (fun part e => ∃ text, part = stringText e.1 ++ l.keySeparator ++ text ∧
      print l e.2 = .ok text) parts es := by
  induction es generalizing parts with
  | nil =>
    obtain rfl := Except.ok.inj printed
    exact .nil
  | cons e es ih =>
    rw [printEntries] at printed
    obtain ⟨text, ht, printed⟩ := Outcome.bind_eq_ok_iff.1 printed
    obtain ⟨parts, hps, printed⟩ := Outcome.bind_eq_ok_iff.1 printed
    obtain rfl := Except.ok.inj printed
    exact .cons ⟨text, rfl, ht⟩ (ih hps)

/-- What is printed is read back. -/
theorem reads_print {v : Value} (readable : Readable v) {cs : List Char}
    (printed : print .compact v = .ok cs) : Reads cs v := by
  -- Induction on the value: each constructor has its own text.
  induction readable generalizing cs with
  | null =>
    obtain rfl := Except.ok.inj printed
    exact reads_null
  | bool b =>
    cases b with
    | true =>
      obtain rfl := Except.ok.inj printed
      exact reads_true
    | false =>
      obtain rfl := Except.ok.inj printed
      exact reads_false
  | int i =>
    rw [print] at printed
    split at printed
    case h_1 numeral =>
      obtain rfl := Except.ok.inj printed
      exact reads_int numeral
    case h_2 => cases printed
  | float x reads =>
    obtain rfl := Except.ok.inj printed
    exact reads
  | text t =>
    obtain rfl := Except.ok.inj printed
    exact reads_text t
  | list vs _ ih =>
    rw [print] at printed
    obtain ⟨parts, hp, rfl⟩ := Outcome.map_eq_ok_iff.1 printed
    exact reads_list (Outcome.forall₂_imp_of_mem (printItems_eq_ok hp) fun part v hv => ih v hv)
  | dict es keys distinct _ ih =>
    rw [print] at printed
    obtain ⟨parts, hp, rfl⟩ := Outcome.map_eq_ok_iff.1 printed
    refine reads_dict (Outcome.forall₂_imp_of_mem (printEntries_eq_ok hp) ?_) distinct
    rintro part e he ⟨text, rfl, ht⟩
    obtain ⟨key, key_eq⟩ := keys e he
    refine ⟨key, text, ?_, key_eq, ih e he ht⟩
    rw [key_eq, List.append_assoc]
    rfl

end SealedFields.Json
