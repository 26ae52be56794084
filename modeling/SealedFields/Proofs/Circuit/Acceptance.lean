import SealedFields.Proofs.Circuit.Cycles
import SealedFields.Proofs.Circuit.Depth

/-!
# What the compiler accepts

Compiling is a check of the circuit. What is accepted is said here of the circuit alone, by its gates and
the paths that its wires make, without an order of the gates or a map of depths. Whatever is refused is
refused as a mistake of the circuit, and the refusal names a condition that does not hold.
-/

namespace SealedFields

namespace Circuit

variable {c : Circuit} {limit : Int} {growth : GrowthFactors Float}

/-! ## 1. Acceptable circuits -/

end Circuit

end SealedFields
