import SealedFields.Digest.Shake256
import SealedFields.Number.Decimal
import SealedFields.Text.Utf8

/-!
Where random bytes come from: a source that answers the draws one after the other.
-/

namespace SealedFields

/-- A source of random bytes and the number of draws made so far. Draw `k` of `n` bytes is `source k n`. -/
structure Entropy where
  source : Nat → Nat → Bytes
  used : Nat

namespace Entropy

def draw (n : Nat) (e : Entropy) : Bytes × Entropy := (e.source e.used n, { e with used := e.used + 1 })

/-- A source that answers with digests of the draws' numbers: the same draws for every run. -/
def reproducible : Entropy where
  source k n := Shake256.digest (Utf8.ofString "entropy:" ++ Utf8.encode (Decimal.ofNat k)) n
  used := 0

end Entropy

end SealedFields
