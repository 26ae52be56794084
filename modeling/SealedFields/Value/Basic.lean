import SealedFields.Bytes

/-!
Dynamic values: what a caller may put into a field, a log record or a request body, before it is
validated. Dictionaries keep the order in which their keys were first written.
-/

namespace SealedFields

inductive Value where
  | null
  | bool (b : Bool)
  | int (i : Int)
  | float (x : Float)
  | text (t : Text)
  | bytes (bs : Bytes)
  | list (items : List Value)
  | dict (entries : List (Text × Value))
  deriving Inhabited

/-- A dictionary's entries, in order, one for each key. -/
abbrev Entries := List (Text × Value)

namespace Entries

variable {κ α : Type} [DecidableEq κ]

def get? (es : List (κ × α)) (key : κ) : Option α := (es.find? (·.1 = key)).map (·.2)

/-- Writes under a key: a key already there keeps its place. -/
def put (key : κ) (v : α) : List (κ × α) → List (κ × α)
  | [] => [(key, v)]
  | e :: es => if e.1 = key then (key, v) :: es else e :: put key v es

def has (es : List (κ × α)) (key : κ) : Bool := es.any (·.1 = key)

def erase (es : List (κ × α)) (key : κ) : List (κ × α) := es.filter (·.1 ≠ key)

/-- `base` overwritten by the entries of `newer`. -/
def merge (base newer : List (κ × α)) : List (κ × α) :=
  newer.foldl (fun es e => put e.1 e.2 es) base

/-- Entries written one after the other: a repeated key keeps its first place and its last value. -/
def ofWrites (es : List (κ × α)) : List (κ × α) := merge [] es

theorem get?_nil (key : κ) : get? ([] : List (κ × α)) key = none := rfl

theorem get?_cons (e : κ × α) (es : List (κ × α)) (key : κ) :
    get? (e :: es) key = if e.1 = key then some e.2 else get? es key := by
  by_cases h : e.1 = key <;> simp [get?, h]

/-- What was written is found. -/
theorem get?_put_self (key : κ) (v : α) (es : List (κ × α)) : get? (put key v es) key = some v := by
  induction es with
  | nil => simp [put, get?_cons]
  | cons e es ih => by_cases h : e.1 = key <;> simp [put, get?_cons, h, ih]

/-- Writing changes nothing under other keys. -/
theorem get?_put_of_ne {key other : κ} (h : other ≠ key) (v : α) (es : List (κ × α)) :
    get? (put key v es) other = get? es other := by
  induction es with
  | nil => simp [put, get?_cons, get?_nil, h.symm]
  | cons e es ih =>
    by_cases k : e.1 = key
    · simp [put, get?_cons, k, h.symm]
    · simp [put, get?_cons, k, ih]

end Entries

namespace Value

/-- Does the value count as true where a condition is wanted? Zero, NaN excepted, and what is empty do
not. -/
def isTruthy : Value → Bool
  | .null => false
  | .bool b => b
  | .int i => i != 0
  | .float x => x != 0.0
  | .text t => !t.isEmpty
  | .bytes bs => !bs.isEmpty
  | .list items => !items.isEmpty
  | .dict entries => !entries.isEmpty

def typeName : Value → String
  | .null => "NoneType"
  | .bool _ => "bool"
  | .int _ => "int"
  | .float _ => "float"
  | .text _ => "str"
  | .bytes _ => "bytes"
  | .list _ => "list"
  | .dict _ => "dict"

def ofOption (f : α → Value) : Option α → Value
  | none => .null
  | some a => f a

end Value

end SealedFields
