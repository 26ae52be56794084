import SealedFields.Scheme
import SealedFields.Digest.Sha256
import SealedFields.Text.Utf8

/-!
Key material. A key pair belongs to one owner and scheme; a bootstrapping key is derived from a pair's
evaluation key and refreshes noise without the private key.
-/

namespace SealedFields

structure KeyPair where
  publicKey : Bytes
  privateKey : Bytes
  evaluationKey : Bytes
  scheme : Scheme
  deriving DecidableEq, Inhabited

namespace KeyPair

def publicKeyHash (k : KeyPair) : Text := "sha256:" ++ Sha256.hex k.publicKey

/-- Names the evaluation key in caches. -/
def evaluationKeyDigest (k : KeyPair) : Text := Sha256.hex k.evaluationKey

def fingerprint (k : KeyPair) : Text := "sha256:" ++ (Sha256.hex k.publicKey).take 16

def describe (k : KeyPair) : Entries :=
  [("scheme", .text k.scheme.tag), ("public_key_hash", .text k.publicKeyHash),
    ("private_key_digest", .text (Sha256.hex k.privateKey)),
    ("evaluation_key_digest", .text k.evaluationKeyDigest), ("fingerprint", .text k.fingerprint),
    ("sizes", .list [.int k.publicKey.length, .int k.privateKey.length, .int k.evaluationKey.length])]

end KeyPair

/-- The seed of the keystream under a public key: both directions regenerate the same keystream. -/
def keystreamSeed (publicKey : Bytes) : Bytes := Sha256.digest (Utf8.ofString "keystream:" ++ publicKey)

def keySwitchingKey (old new : Bytes) : Bytes := Sha256.digest (old ++ new)

structure BootstrappingKey where
  key : Bytes
  scheme : Scheme
  refreshingKey : Bytes
  keySwitchingKey : Bytes
  evaluationKeyDigest : Text
  deriving DecidableEq, Inhabited

def BootstrappingKey.fingerprint (k : BootstrappingKey) : Text := "sha256:" ++ (Sha256.hex k.key).take 16

def BootstrappingKey.toEntries (k : BootstrappingKey) : Entries :=
  [("key", .text (Hex.toText k.key)), ("scheme", .text k.scheme.tag),
    ("refreshing_key", .text (Hex.toText k.refreshingKey)),
    ("key_switching_key", .text (Hex.toText k.keySwitchingKey)),
    ("evaluation_key_digest", .text k.evaluationKeyDigest), ("fingerprint", .text k.fingerprint)]

end SealedFields
