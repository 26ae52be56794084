import SealedFields.Digest.Sha256
import SealedFields.Failure
import SealedFields.Number.Power
import SealedFields.Text.Utf8

/-!
How long to wait before the next attempt. Delays grow by the chosen strategy, may be spread by a jitter
that is random or reproducible from the name of the work, and are kept between zero and a maximum.
-/

namespace SealedFields.Retry

inductive Strategy where
  | constant
  | linear
  | exponential
  | exponentialJitter
  deriving DecidableEq, Inhabited

def Strategy.name : Strategy → Text
  | .constant => "constant"
  | .linear => "linear"
  | .exponential => "exponential"
  | .exponentialJitter => "exponential_jitter"

def Strategy.ofName? (t : Text) : Option Strategy :=
  [.constant, .linear, .exponential, .exponentialJitter].find? (Strategy.name · = t)

/-- What the jitter of a delay is drawn from. -/
inductive Jitter where
  /-- The name of the work and the attempt, so that it can be reproduced. -/
  | ofName
  /-- A random number from zero up to one. -/
  | random (u : Float)

structure Config where
  maxRetries : Int
  baseDelay : Float
  maxDelay : Float
  /-- Without a strategy, every delay is the base delay. -/
  strategy : Option Strategy
  multiplier : Float
  jitterFactor : Float
  retryable : List FailureKind
  nonRetryable : List FailureKind
  /-- What the jitter of each attempt of a run is drawn from. -/
  jitter : Int → Jitter := fun _ => .ofName

/-- Everything is retried three times, after doubling delays with jitter. -/
def Config.standard : Config where
  maxRetries := 3
  baseDelay := 1.0
  maxDelay := 60.0
  strategy := some .exponentialJitter
  multiplier := 2.0
  jitterFactor := 0.25
  retryable := [.failure]
  nonRetryable := []

/-- A number in `[-1, 1]` that depends on the name of the work and the attempt. -/
def jitterUnit (label : Text) (attempt : Int) : Except Failure Float :=
  match (label ++ ":" ++ Text.ofInt attempt).utf8? with
  | none => .error .unencodable
  | some bs =>
    let n := Bytes.toNat ((Sha256.digest bs).take 8)
    .ok (((Number.Binary64.quotient? n (Nat.pow 2 64 - 1)).getD 0.0) * 2.0 - 1.0)

def power (x : Float) (attempt : Int) : Except Failure Float :=
  match Number.power x attempt with
  | .ok y => .ok y
  | .error .zeroToNegative => .error (.raised .zeroDivision [])
  | .error .tooLarge => .error .overflow

/-- What is added to a delay: up to a part of it, in either direction. -/
def Config.spread (c : Config) (label : Text) (attempt : Int) (grown : Float) : Except Failure Float := do
  let range := grown * c.jitterFactor
  match c.jitter attempt with
  | .ofName => return (← jitterUnit label attempt) * range
  | .random u => return -range + (range - -range) * u

def Config.rawDelay (c : Config) (label : Text) (attempt : Int) : Except Failure Float :=
  match c.strategy with
  | none | some .constant => .ok c.baseDelay
  | some .linear =>
    match Number.Binary64.ofInt? (attempt + 1) with
    | some n => .ok (c.baseDelay * n)
    | none => .error .overflow
  | some .exponential => do return c.baseDelay * (← power c.multiplier attempt)
  | some .exponentialJitter => do
    let grown := c.baseDelay * (← power c.multiplier attempt)
    return grown + (← c.spread label attempt grown)

/-- `x` kept between zero and `most`; what compares with nothing is zero. -/
def clamp (most x : Float) : Float :=
  let x := if most < x then most else x
  if x > 0.0 then x else 0.0

/-- The delay after the given attempt, counted from zero. -/
def Config.delay (c : Config) (label : Text) (attempt : Int) : Except Failure Float := do
  return clamp c.maxDelay (← c.rawDelay label attempt)

def Config.shouldRetry (c : Config) (kind : FailureKind) : Bool :=
  !c.nonRetryable.any kind.isWithin && c.retryable.any kind.isWithin

end SealedFields.Retry
