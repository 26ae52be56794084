import SealedFields.Ciphertext.FloatNoise
import SealedFields.Engine.Evaluate

/-!
How the service reports an engine's refusal.
-/

namespace SealedFields.EngineFault

def failure : EngineFault Float → Failure
  | .ciphertext f => f.failure
  | .unsupported operation reason => .field (.unsupportedOperation operation reason)
  | .arity op received => .field (.wrongArity op.name op.describeArity received)
  | .noiseOverflow level op => .field (.noiseOverflow level maxNoise (some op.name))
  | .modulusNotPositive => .rejected "moduli must be positive"
  | .ratioTooLarge => .overflow

end SealedFields.EngineFault
