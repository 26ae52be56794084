import SealedFields.Cipher.Gcm
import SealedFields.Digest.Sha256
import SealedFields.Entropy
import SealedFields.Failure
import SealedFields.Scheme

/-!
Wrapping of secret key material under a master key. A wrapped key is a fresh nonce followed by the
authenticated encryption of the key. The data that a key is wrapped with names its owner and its role, so
that no wrapped key passes for another.
-/

namespace SealedFields

structure KeyWrapper where
  masterKey : Bytes
  size : masterKey.length = 32

namespace KeyWrapper

def nonceSize : Nat := 12

/-- The cipher takes no shorter nonce. -/
def leastNonceSize : Nat := 8

def ofMasterKey (key : Bytes) : Except Failure KeyWrapper :=
  if size : key.length = 32 then .ok ⟨key, size⟩ else .error (.rejected "Master key must be 32 bytes")

/-- A wrapper under a master key that nobody else has; each number stands for another one. -/
def ephemeral (number : Nat) : KeyWrapper :=
  ⟨Sha256.digest (Utf8.ofString "ephemeral:" ++ Utf8.encode (Decimal.ofNat number)),
    Sha256.length_digest _⟩

/-- A key wrapped with a given nonce. No associated data is the same as empty associated data. -/
def wrapWith (w : KeyWrapper) (nonce key : Bytes) (associated : Option Bytes) : Bytes :=
  nonce ++ Gcm.encrypt w.masterKey nonce key (associated.getD [])

def wrap (w : KeyWrapper) (key : Bytes) (associated : Option Bytes) (entropy : Entropy) : Bytes × Entropy :=
  let (nonce, entropy) := entropy.draw nonceSize
  (w.wrapWith nonce key associated, entropy)

/-- The key that was wrapped, if nothing was changed since. -/
def unwrap (w : KeyWrapper) (wrapped : Bytes) (associated : Option Bytes) : Except Failure Bytes :=
  let nonce := wrapped.take nonceSize
  if nonce.length < leastNonceSize then .error .badValue
  else match Gcm.decrypt? w.masterKey nonce (wrapped.drop nonceSize) (associated.getD []) with
    | some key => .ok key
    | none => .error (.raised .inauthentic [])

theorem unwrap_wrapWith (w : KeyWrapper) (nonce key : Bytes) (associated : Option Bytes)
    (h : nonce.length = nonceSize) : w.unwrap (w.wrapWith nonce key associated) associated = .ok key := by
  have first : (w.wrapWith nonce key associated).take nonceSize = nonce := by simp [wrapWith, ← h]
  have rest : (w.wrapWith nonce key associated).drop nonceSize
      = Gcm.encrypt w.masterKey nonce key (associated.getD []) := by simp [wrapWith, ← h]
  have long : ¬ nonceSize < leastNonceSize := by decide
  simp only [unwrap, first, rest, h, if_neg long, Gcm.decrypt?_encrypt]

end KeyWrapper

inductive KeyRole where
  | decryption
  | evaluation
  deriving DecidableEq

def KeyRole.name : KeyRole → Text
  | .decryption => "private"
  | .evaluation => "evaluation"

/-- Whose keys: an identity under a scheme. -/
structure Owner where
  identity : Text
  scheme : Scheme
  deriving DecidableEq

/-- The data that binds a wrapped key to its owner and role. -/
def Owner.associatedData (o : Owner) (role : KeyRole) : Except Failure Bytes :=
  match (o.identity ++ "|" ++ o.scheme.tag ++ "|" ++ role.name).utf8? with
  | some bs => .ok bs
  | none => .error .unencodable

end SealedFields
