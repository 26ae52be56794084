import SealedFields.Cache
import SealedFields.Engine.Keys
import SealedFields.Key.Custodian
import SealedFields.Retry.Policy

/-!
The key store: key pairs by owner, cached, and behind the cache in custody. On a miss the custodian is
asked; if it holds nothing and keys are wanted, a pair is made, wrapped, stored and cached. Lookups that
must not make keys are on a flight of their own. Bootstrapping keys are derived from evaluation keys and
cached too.

Calls to the custodian are retried under one policy, whose jitter depends on the name of the custody work
that was begun last.
-/

namespace SealedFields

inductive Errand where
  /-- The owner's keys, made now if there are none. -/
  | create
  /-- The owner's keys, if there are any. -/
  | lookup
  deriving DecidableEq

inductive Phase where
  | lookingUp (attempt : Nat)
  | storing (attempt : Nat) (keys : KeyPair) (record : KeyRecord)

namespace Phase

def label : Phase → Text
  | .lookingUp _ => "retrieve_keys"
  | .storing .. => "store_keys"

def attempt : Phase → Nat
  | .lookingUp n => n
  | .storing n .. => n

/-- The same work, one attempt later. -/
def again : Phase → Phase
  | .lookingUp n => .lookingUp (n + 1)
  | .storing n keys record => .storing (n + 1) keys record

/-- A final failure to store new keys is one of key generation. -/
def persistFailure (scheme : Scheme) : Failure → Failure
  | .field (.custodianFailed reason operation) =>
    let cause := (FieldError.custodianFailed reason operation).message
    .field (.keyGenerationFailed ("could not persist new keys: " ++ cause) (some scheme.tag))
  | f => f

def lastFailure (scheme : Scheme) : Phase → Failure → Failure
  | .lookingUp _, f => f
  | .storing .., f => persistFailure scheme f

end Phase

structure KeyLoad where
  id : Nat
  owner : Owner
  errand : Errand
  phase : Phase

/-- The caches, the loads under way, and how custody is retried. -/
structure KeyStore where
  wrapper : KeyWrapper
  policy : Retry.Config
  /-- The custody work begun last. -/
  label : Text
  keyCache : Cache Owner Errand KeyPair
  bootstrapCache : Cache (Text × Scheme) Unit BootstrappingKey
  loads : List KeyLoad

namespace KeyStore

def custodyPolicy (maxRetries : Int) : Retry.Config :=
  { Retry.Config.standard with maxRetries, baseDelay := 0.05, maxDelay := 2.0, retryable := [.custodian] }

def new (wrapper : KeyWrapper) (keyTtl bootstrapTtl : Float) (maxRetries : Int) :
    Except Failure KeyStore := do
  let keyCache ← Cache.empty keyTtl "key-cache"
  let bootstrapCache ← Cache.empty bootstrapTtl "bootstrap-key-cache"
  return ⟨wrapper, custodyPolicy maxRetries, "unknown", keyCache, bootstrapCache, []⟩

def stats (s : KeyStore) : Entries :=
  [("key_cache_hits", .int s.keyCache.hits), ("key_cache_misses", .int s.keyCache.misses),
    ("bootstrap_key_cache_hits", .int s.bootstrapCache.hits),
    ("bootstrap_key_cache_misses", .int s.bootstrapCache.misses)]

/-- Cancels what is under way and refuses requests from now on. -/
def close (s : KeyStore) : KeyStore :=
  { s with keyCache := s.keyCache.close.2, bootstrapCache := s.bootstrapCache.close.2, loads := [] }

end KeyStore

/-- The engines that make keys, as far as they are up, and what makes them fail if they are broken. -/
structure KeySource where
  engine : Scheme → Except Failure Parameters
  broken : Option Failure

namespace KeySource

def standard : KeySource := ⟨fun s => .ok (.registered s), none⟩

/-- A fresh pair. A failure outside the taxonomy is reported as one of key generation. -/
def generate (k : KeySource) (scheme : Scheme) (entropy : Entropy) : Except Failure KeyPair × Entropy :=
  match k.engine scheme, k.broken with
  | .error f, _ => (.error f, entropy)
  | .ok _, some (.field e) => (.error (.field e), entropy)
  | .ok _, some f =>
    match f.told with
    | .ok cause => (.error (.field (.keyGenerationFailed cause (some scheme.tag))), entropy)
    | .error f => (.error f, entropy)
  | .ok p, none =>
    let (keys, entropy) := p.generateKeys entropy
    (.ok keys, entropy)

end KeySource

end SealedFields
