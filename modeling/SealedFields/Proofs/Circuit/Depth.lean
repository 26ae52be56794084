import Mathlib.Data.List.Chain
import SealedFields.Proofs.Circuit.Compilation

/-!
# Depth and paths

The multiplicative depth of a wire is worked out gate by gate, from the depths of the wires that a gate
reads. It is the greatest number of products on a path of gates that ends with the wire.
-/

namespace SealedFields

namespace Circuit

variable {c : Circuit}

/-! ## 1. Paths -/

/-- How many of the gates multiply. -/
def products (path : List Gate) : Nat :=
  path.countP fun g => g.operation.lower = Operation.multiply.name

end Circuit

end SealedFields
