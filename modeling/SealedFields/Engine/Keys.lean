import SealedFields.Digest.Shake256
import SealedFields.Entropy
import SealedFields.Engine.Algebra

/-!
Fresh key pairs, and the bootstrapping key that belongs to an evaluation key.
-/

namespace SealedFields.Parameters

/-- A fresh key pair. Public and evaluation key begin with a digest of the private key, the rest of them
is random. -/
def generateKeys (p : Parameters) (entropy : Entropy) : KeyPair × Entropy :=
  let (privateKey, entropy) := entropy.draw 256
  let (publicRest, entropy) := entropy.draw 224
  let (evaluationRest, entropy) := entropy.draw 480
  ({ publicKey := Sha256.digest (Utf8.ofString "public:" ++ privateKey) ++ publicRest
     privateKey
     evaluationKey := Sha256.digest (Utf8.ofString "evaluation:" ++ privateKey) ++ evaluationRest
     scheme := p.scheme }, entropy)

/-- The bootstrapping key of an evaluation key: the same for the same key and parameters. -/
def bootstrappingKey (p : Parameters) (evaluationKey : Bytes) : Except Failure BootstrappingKey := do
  let hash ← p.hash
  let material := evaluationKey ++ (hash.utf8?.getD [])
  let sizing := BootstrapParameters.registered p.scheme
  let key := Shake256.digest (Utf8.ofString "bootstrap:" ++ material) sizing.keySize
  return {
    key
    scheme := p.scheme
    refreshingKey := Shake256.digest (Utf8.ofString "refresh:" ++ material) sizing.refreshingKeySize
    keySwitchingKey := keySwitchingKey evaluationKey key
    evaluationKeyDigest := Sha256.hex evaluationKey }

end SealedFields.Parameters
