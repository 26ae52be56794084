import SealedFields.Bytes

/-!
A stream of uniform numbers from a seed. The seed's 32-bit words are stirred into a pool of four, the
pool is drawn out into 256 bits, and these start a 128-bit linear congruential generator whose state is
folded to 64 bits and rotated by its top bits.
-/

namespace SealedFields.Pcg64

/-- The words of `n`, least significant first; zero has one word. -/
def entropyWords (n : Nat) : List UInt32 :=
  if n < 0x100000000 then [UInt32.ofNat n]
  else UInt32.ofNat (n % 0x100000000) :: entropyWords (n / 0x100000000)
  termination_by n
  decreasing_by omega

/-- A word hashed with a running constant, and the next constant. -/
def hashWord (multiplier constant value : UInt32) : UInt32 × UInt32 :=
  let next := constant * multiplier
  let v := (value ^^^ constant) * next
  (v ^^^ (v >>> 16), next)

def stirMultiplier : UInt32 := 0x931e8875

def mix (x y : UInt32) : UInt32 :=
  let r := 0xca01f9dd * x - 0x4973f715 * y
  r ^^^ (r >>> 16)

/-- The pool filled with hashed words, and the constant after that. -/
def fill : (slots : Nat) → (constant : UInt32) → List UInt32 → List UInt32 × UInt32
  | 0, constant, _ => ([], constant)
  | slots + 1, constant, ws =>
    let (v, next) := hashWord stirMultiplier constant (ws.headD 0)
    let (pool, last) := fill slots next ws.tail
    (v :: pool, last)

/-- A source word is hashed anew for every slot it is mixed into. -/
def mixInto (pool : Array UInt32) (constant : UInt32) (targets : List Nat) (source : Array UInt32 → UInt32) :
    Array UInt32 × UInt32 :=
  targets.foldl (fun (p, k) target =>
    let (v, k) := hashWord stirMultiplier k (source p)
    (p.setIfInBounds target (mix (p.getD target 0) v), k)) (pool, constant)

/-- The pool of four words stirred from the words of the seed. -/
def stir (ws : List UInt32) : Array UInt32 :=
  let (pool, constant) := fill 4 0x43b0d7e5 ws
  let (pool, constant) := [0, 1, 2, 3].foldl (fun (p, k) slot =>
    mixInto p k ([0, 1, 2, 3].filter (· != slot)) (·.getD slot 0)) (pool.toArray, constant)
  ((ws.drop 4).foldl (fun (p, k) w => mixInto p k [0, 1, 2, 3] fun _ => w) (pool, constant)).1

def draw (pool : Array UInt32) : (count i : Nat) → (constant : UInt32) → List UInt32
  | 0, _, _ => []
  | count + 1, i, constant =>
    let (v, next) := hashWord 0x58f38ded constant (pool.getD (i % 4) 0)
    v :: draw pool count (i + 1) next

structure State where
  state : Nat
  increment : Nat

def multiplier : Nat := 0x2360ED051FC65DA44385DF649FCCF645

def State.step (s : State) : State :=
  ⟨(s.state * multiplier + s.increment) % Nat.pow 2 128, s.increment⟩

def State.start (initial stream : Nat) : State :=
  let s := State.step ⟨0, (2 * stream + 1) % Nat.pow 2 128⟩
  State.step ⟨(s.state + initial) % Nat.pow 2 128, s.increment⟩

def ofSeed (seed : Nat) : State :=
  let w := (draw (stir (entropyWords seed)) 8 0 0x8b51f9dd).toArray.map UInt32.toNat
  let pair (i : Nat) : Nat := w.getD (i + 1) 0 * Nat.pow 2 32 + w.getD i 0
  State.start (pair 0 * Nat.pow 2 64 + pair 2) (pair 4 * Nat.pow 2 64 + pair 6)

def State.output (s : State) : Nat :=
  let high := s.state / Nat.pow 2 64
  let folded := high ^^^ (s.state % Nat.pow 2 64)
  let turn := high / Nat.pow 2 58
  (folded / Nat.pow 2 turn + folded * Nat.pow 2 (64 - turn)) % Nat.pow 2 64

/-- `count` numbers in `[0, 1)` of 53 bits each, and the generator after them. -/
def uniforms : (count : Nat) → State → List Float × State
  | 0, s => ([], s)
  | count + 1, s =>
    let s := s.step
    let (xs, last) := uniforms count s
    (Float.ofNat (s.output / Nat.pow 2 11) * Float.ofBits 0x3CA0000000000000 :: xs, last)

end SealedFields.Pcg64
