import SealedFields.Value.Basic
import SealedFields.Text.Quoted
import SealedFields.Number.Shortest

/-!
The text of a value. Texts stand for themselves at the top and quoted inside lists and dictionaries; an
integer too long for a numeral makes the whole value unshowable.
-/

namespace SealedFields.Value

mutual

def inner? : Value → Option Text
  | .null => some "None"
  | .bool true => some "True"
  | .bool false => some "False"
  | .int i => (Decimal.ofInt? i).map Text.ofChars
  | .float x => some (Text.ofFloat x)
  | .text t => some t.quoted
  | .bytes bs => some bs.quoted
  | .list items => (innerItems? items).map fun ts => "[" ++ Text.join ", " ts ++ "]"
  | .dict entries => (innerEntries? entries).map fun ts => "\x7b" ++ Text.join ", " ts ++ "\x7d"

def innerItems? : List Value → Option (List Text)
  | [] => some []
  | v :: vs => do
    let t ← inner? v
    let ts ← innerItems? vs
    return t :: ts

def innerEntries? : List (Text × Value) → Option (List Text)
  | [] => some []
  | (k, v) :: es => do
    let t ← inner? v
    let ts ← innerEntries? es
    return (k.quoted ++ ": " ++ t) :: ts

end

def display? : Value → Option Text
  | .text t => some t
  | v => inner? v

end SealedFields.Value
