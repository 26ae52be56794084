import SealedFields.Ciphertext.FloatNoise
import SealedFields.Text.Case

/-!
What can be said of noise without looking at payloads: how much an operation will leave, and how many
additions a ciphertext still has room for.
-/

namespace SealedFields.Noise

/-- The greatest of some levels; the first one wins where a comparison does not hold. -/
def greatest (first : Float) (rest : List Float) : Float :=
  rest.foldl (fun m x => if x > m then x else m) first

/-- The noise that an operation leaves, from the levels of its inputs. -/
def estimate (operation : Text) (levels : List Float) (growth : GrowthFactors Float) :
    Except Failure Float :=
  match levels with
  | [] => .error (.rejected "at least one input noise level is required")
  | first :: rest =>
    let name := operation.lower
    .ok (if name = "add" ∨ name = "subtract" then greatest first rest + growth.add
      else if name = "multiply" then rest.foldl (· * ·) first * growth.multiply
      else if name = "rotate" then greatest first rest * growth.rotate
      else greatest first rest)

/-- How many more additions fit: none once the budget is exceeded. -/
def remainingAdditions (level : Float) (growth : GrowthFactors Float) : Except Failure Int :=
  if level > maxNoise then .ok 0
  else if growth.add == 0.0 then .error (.raised .zeroDivision [])
  else match Number.Binary64.ofFloat ((maxNoise - level) / growth.add) with
    | .nan => .error .badValue
    | .infinite _ => .error .overflow
    | x => .ok (x.floor?.getD 0)

structure Report where
  current : Float
  max : Float
  remaining : Int
  requiresBootstrapping : Bool

def report (c : Ciphertext Float) (growth : GrowthFactors Float) : Except Failure Report := do
  let remaining ← remainingAdditions c.noise growth
  return ⟨c.noise, maxNoise, remaining, c.isExhausted⟩

def Report.toEntries (r : Report) : Entries :=
  [("current_noise", .float r.current), ("max_noise", .float r.max),
    ("remaining_computations", .int r.remaining), ("requires_bootstrapping", .bool r.requiresBootstrapping)]

end SealedFields.Noise
