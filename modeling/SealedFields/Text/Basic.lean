/-!
Text as requests carry it: a sequence of code points. A JSON escape can name half of a surrogate pair
that has no partner, so a code point is either a scalar value or such a half.
-/

namespace SealedFields

/-- A code point: a scalar value, or a surrogate half (`0xD800 + half`). -/
inductive CodePoint where
  | scalar (c : Char)
  | surrogate (half : Fin 2048)
  deriving DecidableEq, Inhabited

abbrev Text := List CodePoint

namespace CodePoint

/-- The number of a code point; code points are ordered by it. -/
def toNat : CodePoint → Nat
  | .scalar c => c.toNat
  | .surrogate h => 0xD800 + h.val

def scalar? : CodePoint → Option Char
  | .scalar c => some c
  | .surrogate _ => none

/-- The code point of a 16-bit number: a scalar value unless it is a surrogate. -/
def ofUnit (n : Nat) : CodePoint :=
  if h : 0xD800 ≤ n ∧ n < 0xE000 then .surrogate ⟨n - 0xD800, by omega⟩
  else .scalar (Char.ofNat n)

def is (p : CodePoint) (c : Char) : Bool := p == .scalar c

end CodePoint

namespace Text

def ofChars (cs : List Char) : Text := cs.map .scalar

def ofString (s : String) : Text := ofChars s.toList

instance : Coe String Text := ⟨ofString⟩

def chars? (t : Text) : Option (List Char) := t.mapM CodePoint.scalar?

def toString? (t : Text) : Option String := t.chars?.map String.ofList

def isWellFormed (t : Text) : Bool := t.all (·.scalar?.isSome)

theorem chars?_ofChars (cs : List Char) : chars? (ofChars cs) = some cs := by
  induction cs with
  | nil => rfl
  | cons c cs ih =>
    simp only [chars?, ofChars] at ih
    simp [chars?, ofChars, CodePoint.scalar?, ih]

theorem ofChars_append (cs ds : List Char) : ofChars (cs ++ ds) = ofChars cs ++ ofChars ds := by
  simp [ofChars]

/-- Texts are ordered by their code points, the first difference deciding. -/
def precedes : Text → Text → Bool
  | _, [] => false
  | [], _ :: _ => true
  | a :: s, b :: t => if a.toNat = b.toNat then precedes s t else decide (a.toNat < b.toNat)

/-- Ascending order, equal texts in their given order. -/
def sort (ts : List Text) : List Text := ts.mergeSort (fun a b => !precedes b a)

def startsWith (t s : Text) : Bool := s.isPrefixOf t

def occursIn (s : Text) : Text → Bool
  | [] => s.isEmpty
  | p :: t => s.isPrefixOf (p :: t) || occursIn s t

def join (separator : Text) : List Text → Text
  | [] => []
  | [t] => t
  | t :: ts => t ++ separator ++ join separator ts

/-- The pieces of `t` that the character `c` separates; there is always at least one. -/
def splitOn (c : Char) : Text → List Text
  | [] => [[]]
  | p :: t =>
    if p.is c then [] :: splitOn c t
    else match splitOn c t with
      | [] => [[p]]
      | piece :: rest => (p :: piece) :: rest

/-- `t` filled up with blanks on the right to `width` code points. -/
def padRight (width : Nat) (t : Text) : Text := t ++ List.replicate (width - t.length) (.scalar ' ')

end Text

end SealedFields
