import SealedFields.Proofs.Json.Floats

/-!
# Documents

Every tree of nulls, conditions, integers, floats, texts, lists and dictionaries, of any depth, has a text, as long
as its integers are not too long for a numeral, and is read from this text as it was.
-/

namespace SealedFields.Json

/-- A tree that can be written down: no integer is too long for a numeral, no float is NaN, which no float equals,
texts have no lone halves of surrogate pairs, and the keys of a dictionary differ. -/
inductive Document : Value → Prop
  | null : Document .null
  | bool (b : Bool) : Document (.bool b)
  | int (i : Int) (short : i.natAbs < Nat.pow 10 Decimal.maxDigits) : Document (.int i)
  | float (x : Float) (number : x.isNaN = false) : Document (.float x)
  | text (cs : List Char) : Document (.text (Text.ofChars cs))
  | list (vs : List Value) (each : ∀ v ∈ vs, Document v) : Document (.list vs)
  | dict (es : Entries) (keys : ∀ e ∈ es, ∃ cs, e.1 = Text.ofChars cs) (distinct : (es.map (·.1)).Nodup)
    (each : ∀ e ∈ es, Document e.2) : Document (.dict es)

variable {v : Value} {l : Layout}

/-- Whatever float a document holds, its text is read back. -/
theorem Document.readable (document : Document v) : Readable v := by
  induction document with
  | null => exact .null
  | bool b => exact .bool b
  | int i _ => exact .int i
  | float x _ => exact .float x (reads_floatText x)
  | text cs => exact .text cs
  | list vs _ ih => exact .list vs ih
  | dict es keys distinct _ ih => exact .dict es keys distinct ih

theorem exists_printItems {vs : List Value} (each : ∀ v ∈ vs, ∃ cs, print l v = .ok cs) :
    ∃ parts, printItems l vs = .ok parts := by
  induction vs with
  | nil => exact ⟨[], rfl⟩
  | cons v vs ih =>
    obtain ⟨part, printed⟩ := each v List.mem_cons_self
    obtain ⟨parts, rest⟩ := ih fun v mem => each v (List.mem_cons_of_mem _ mem)
    refine ⟨part :: parts, ?_⟩
    rw [printItems, printed, rest]
    rfl

theorem exists_printEntries {es : Entries} (each : ∀ e ∈ es, ∃ cs, print l e.2 = .ok cs) :
    ∃ parts, printEntries l es = .ok parts := by
  induction es with
  | nil => exact ⟨[], rfl⟩
  | cons e es ih =>
    obtain ⟨part, printed⟩ := each e List.mem_cons_self
    obtain ⟨parts, rest⟩ := ih fun e mem => each e (List.mem_cons_of_mem _ mem)
    refine ⟨(stringText e.1 ++ l.keySeparator ++ part) :: parts, ?_⟩
    rw [printEntries, printed, rest]
    rfl

/-- A document is printed, in any layout. -/
theorem Document.exists_print (document : Document v) (l : Layout) : ∃ cs, print l v = .ok cs := by
  induction document with
  | null => exact ⟨_, rfl⟩
  | bool b => cases b <;> exact ⟨_, rfl⟩
  | int i short =>
    refine ⟨Decimal.ofInt i, ?_⟩
    rw [print, Decimal.ofInt?, if_pos short]
  | float x _ => exact ⟨_, rfl⟩
  | text cs => exact ⟨_, rfl⟩
  | list vs _ ih =>
    obtain ⟨parts, printed⟩ := exists_printItems ih
    refine ⟨'[' :: separated l.itemSeparator parts ++ [']'], ?_⟩
    rw [print, printed]
    rfl
  | dict es _ _ _ ih =>
    obtain ⟨parts, printed⟩ := exists_printEntries ih
    refine ⟨'\x7b' :: separated l.itemSeparator parts ++ ['\x7d'], ?_⟩
    rw [print, printed]
    rfl

/-- It is read as it was. -/
theorem Document.exists_read (document : Document v) : ∃ cs, print .compact v = .ok cs ∧ read cs = .ok v := by
  obtain ⟨cs, printed⟩ := document.exists_print .compact
  exact ⟨cs, printed, (reads_print document.readable printed).document⟩

end SealedFields.Json
