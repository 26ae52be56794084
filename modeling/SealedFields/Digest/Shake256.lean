import SealedFields.Bytes

/-!
SHAKE-256: the Keccak permutation on 25 lanes of 64 bits, absorbing 136 bytes at a time and squeezing
as many bytes as are wanted.
-/

namespace SealedFields.Shake256

/-- The 25 lanes; lane `x + 5 y` is at column `x` and row `y`. -/
abbrev Lanes := Array UInt64

def rate : Nat := 136

def rotateLeft (x : UInt64) (n : Nat) : UInt64 :=
  if n % 64 = 0 then x else (x <<< UInt64.ofNat (n % 64)) ||| (x >>> UInt64.ofNat (64 - n % 64))

def roundConstants : List UInt64 := [
  0x0000000000000001, 0x0000000000008082, 0x800000000000808A, 0x8000000080008000,
  0x000000000000808B, 0x0000000080000001, 0x8000000080008081, 0x8000000000008009,
  0x000000000000008A, 0x0000000000000088, 0x0000000080008009, 0x000000008000000A,
  0x000000008000808B, 0x800000000000008B, 0x8000000000008089, 0x8000000000008003,
  0x8000000000008002, 0x8000000000000080, 0x000000000000800A, 0x800000008000000A,
  0x8000000080008081, 0x8000000000008080, 0x0000000080000001, 0x8000000080008008]

def rotations : Array Nat := #[
  0, 1, 62, 28, 27, 36, 44, 6, 55, 20, 3, 10, 43, 25, 39, 41, 45, 15, 21, 8, 18, 2, 61, 56, 14]

def lane (s : Lanes) (x y : Nat) : UInt64 := s.getD (x % 5 + 5 * (y % 5)) 0

def tabulate (f : Nat → Nat → UInt64) : Lanes := Array.ofFn fun i : Fin 25 => f (i.val % 5) (i.val / 5)

/-- Each lane takes in the parity of two columns. -/
def theta (s : Lanes) : Lanes :=
  let parity := Array.ofFn fun x : Fin 5 =>
    lane s x 0 ^^^ lane s x 1 ^^^ lane s x 2 ^^^ lane s x 3 ^^^ lane s x 4
  tabulate fun x y => lane s x y ^^^ parity.getD ((x + 4) % 5) 0 ^^^ rotateLeft (parity.getD ((x + 1) % 5) 0) 1

/-- Lanes are rotated and moved: the lane at `(x, y)` goes to `(y, 2x + 3y)`. -/
def rhoPi (s : Lanes) : Lanes :=
  tabulate fun x y =>
    let fromX := (x + 3 * y) % 5
    rotateLeft (lane s fromX x) (rotations.getD (fromX + 5 * x) 0)

/-- The only step that is not linear: along each row. -/
def chi (s : Lanes) : Lanes :=
  tabulate fun x y => lane s x y ^^^ (~~~lane s (x + 1) y &&& lane s (x + 2) y)

def round (s : Lanes) (constant : UInt64) : Lanes :=
  let t := chi (rhoPi (theta s))
  t.setIfInBounds 0 (lane t 0 0 ^^^ constant)

def permute (s : Lanes) : Lanes := roundConstants.foldl round s

def laneOfBytes (bs : Bytes) : UInt64 := UInt64.ofNat (Bytes.toNat bs.reverse)

/-- The state with a block of bytes added from lane `i` on. -/
def addBlock : (i : Nat) → Lanes → Bytes → Lanes
  | i, s, a :: b :: c :: d :: e :: f :: g :: h :: bs =>
    addBlock (i + 1) (s.setIfInBounds i (s.getD i 0 ^^^ laneOfBytes [a, b, c, d, e, f, g, h])) bs
  | _, s, _ => s

/-- The message with the suffix of the standard and padding to whole blocks. -/
def pad (message : Bytes) : Bytes :=
  let room := rate - message.length % rate
  message ++ if room = 1 then [0x9F] else 0x1F :: List.replicate (room - 2) 0 ++ [0x80]

def absorbAll : (blocks : Nat) → Lanes → Bytes → Lanes
  | 0, s, _ => s
  | blocks + 1, s, bs => absorbAll blocks (permute (addBlock 0 s (bs.take rate))) (bs.drop rate)

def bytesOf (s : Lanes) : Bytes :=
  (s.toList.flatMap fun l => Bytes.littleEndian 8 l.toNat).take rate

def squeeze : (blocks : Nat) → Lanes → Bytes
  | 0, _ => []
  | blocks + 1, s => bytesOf s ++ squeeze blocks (permute s)

def digest (message : Bytes) (length : Nat) : Bytes :=
  let padded := pad message
  let s := absorbAll (padded.length / rate) (Array.replicate 25 0) padded
  (squeeze (length / rate + 1) s).take length

end SealedFields.Shake256
