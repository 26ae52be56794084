import SealedFields.Text.Case
import SealedFields.Value.Basic

/-!
Redaction: what is stored under a sensitive key never reaches a log. A key is sensitive if it contains one
of a few words, regardless of case. Dictionaries inside a redacted one are redacted too, also as items of
its lists; a list by itself is shown as it is.
-/

namespace SealedFields.Log

def sensitiveWords : List Text :=
  ["private_key", "privatekey", "secret", "evaluation_key", "eval_key", "master_key", "plaintext", "token",
    "password", "credential"]

def isSensitive (key : Text) : Bool := sensitiveWords.any (·.occursIn key.lower)

def redacted : Value := .text "[REDACTED]"

mutual

def redactEntries : List (Text × Value) → List (Text × Value)
  | [] => []
  | (key, v) :: es => (key, if isSensitive key then redacted else redactValue v) :: redactEntries es

def redactValue : Value → Value
  | .dict es => .dict (redactEntries es)
  | .list vs => .list (redactItems vs)
  | v => v

/-- Items of a list: dictionaries are redacted, and lists inside lists are not looked into. -/
def redactItems : List Value → List Value
  | [] => []
  | .dict es :: vs => .dict (redactEntries es) :: redactItems vs
  | v :: vs => v :: redactItems vs

end

/-- Redaction keeps the keys and their order. -/
theorem map_fst_redactEntries (es : List (Text × Value)) :
    (redactEntries es).map (·.1) = es.map (·.1) := by
  induction es with
  | nil => rfl
  | cons e es ih =>
    obtain ⟨key, v⟩ := e
    simp [redactEntries, ih]

/-- What is stored under a sensitive key does not matter. -/
theorem redactEntries_cons_of_sensitive {key : Text} (h : isSensitive key = true) (v : Value)
    (es : List (Text × Value)) : redactEntries ((key, v) :: es) = (key, redacted) :: redactEntries es := by
  simp [redactEntries, h]

def showField : Text × Value → Text × Value
  | (key, v) =>
    if isSensitive key then (key, redacted)
    else match v with
      | .dict es => (key, .dict (redactEntries es))
      | v => (key, v)

end SealedFields.Log
