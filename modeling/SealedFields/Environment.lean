import SealedFields.Failure
import SealedFields.Text.Case

/-!
Environment variables. An environment holds bytes: text in UTF-8, where a half from `DC80` to `DCFF` stands
for a byte by itself, and the byte zero ends a text. What it cannot hold is refused before any of it is read.
-/

namespace SealedFields.Environment

def isEncodable (t : Text) : Bool :=
  t.all fun
    | .scalar _ => true
    | .surrogate h => 0x480 ≤ h.val && h.val ≤ 0x4FF

def endsEarly (t : Text) : Bool := t.contains (.scalar '\x00')

/-- Refuses a variable that an environment cannot hold. A name has at least one code point and no equals sign. -/
def checkVariable (name : Text) : Value → Except Failure Unit
  | .text t =>
    if !isEncodable name || !isEncodable t then .error .unencodable
    else if endsEarly name || endsEarly t || name.contains (.scalar '=') then .error .badValue
    else if name.isEmpty then .error (.raised .system [])
    else .ok ()
  | _ => .error (if isEncodable name then .badType else .unencodable)

/-- Refuses an environment that holds a variable it cannot hold; the first one tells why. -/
def check (assignments : Entries) : Except Failure Unit := assignments.forM fun (name, v) => checkVariable name v

/-- The value of a variable whose name is given in lower case. Names ignore case, and the last one counts. -/
def get? (assignments : Entries) (name : Text) : Option Value :=
  (assignments.reverse.find? fun e => e.1.lower = name).map (·.2)

end SealedFields.Environment
