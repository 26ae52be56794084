import SealedFields.Cipher.Aes256

/-!
Galois/counter mode with AES-256, a nonce of twelve bytes and a tag of sixteen. The plaintext is
combined with encrypted counters; the tag is a polynomial hash of the associated data and the ciphertext,
combined with the encryption of counter 1.
-/

namespace SealedFields.Gcm

/-- An element of the field of `2^128` elements, the most significant bit being the coefficient of 1. -/
structure Element where
  high : UInt64
  low : UInt64
  deriving DecidableEq, Inhabited

namespace Element

def zero : Element := ⟨0, 0⟩

def xor (a b : Element) : Element := ⟨a.high ^^^ b.high, a.low ^^^ b.low⟩

def shift (a : Element) : Element :=
  let reduced : UInt64 := if a.low.toNat % 2 = 0 then 0 else 0xE100000000000000
  ⟨(a.high >>> 1) ^^^ reduced, (a.low >>> 1) ||| (a.high <<< 63)⟩

/-- `accumulated + shifted · (the `count` leading bits of w)`, and `shifted` moved on. -/
def mulWord : (count : Nat) → (w : UInt64) → (accumulated shifted : Element) → Element × Element
  | 0, _, accumulated, shifted => (accumulated, shifted)
  | count + 1, w, accumulated, shifted =>
    let accumulated := if w.toNat < Nat.pow 2 63 then accumulated else accumulated.xor shifted
    mulWord count (w <<< 1) accumulated shifted.shift

def mul (a b : Element) : Element :=
  let (accumulated, shifted) := mulWord 64 a.high zero b
  (mulWord 64 a.low accumulated shifted).1

/-- The first sixteen bytes, filled up with zeros. -/
def ofBytes (bs : Bytes) : Element :=
  let padded := bs.take 16 ++ List.replicate (16 - bs.length) 0
  ⟨UInt64.ofNat (Bytes.toNat (padded.take 8)), UInt64.ofNat (Bytes.toNat (padded.drop 8))⟩

def bytes (a : Element) : Bytes := Bytes.bigEndian 8 a.high.toNat ++ Bytes.bigEndian 8 a.low.toNat

theorem length_bytes (a : Element) : a.bytes.length = 16 := by
  simp [bytes, Bytes.length_bigEndian]

end Element

def blockCount (n : Nat) : Nat := (n + 15) / 16

/-- The hash `y` continued with `blocks` blocks of `bs`, the last one filled up with zeros. -/
def hashBlocks (h : Element) : (blocks : Nat) → Element → Bytes → Element
  | 0, y, _ => y
  | blocks + 1, y, bs => hashBlocks h blocks ((y.xor (Element.ofBytes bs)).mul h) (bs.drop 16)

/-- The hash of associated data and ciphertext, their lengths in bits last. -/
def hash (h : Element) (associated ciphertext : Bytes) : Element :=
  let y := hashBlocks h (blockCount associated.length) .zero associated
  let y := hashBlocks h (blockCount ciphertext.length) y ciphertext
  let lengths := Bytes.bigEndian 8 (8 * associated.length) ++ Bytes.bigEndian 8 (8 * ciphertext.length)
  (y.xor (Element.ofBytes lengths)).mul h

def counterBlock (nonce : Bytes) (counter : Nat) : Aes256.Block :=
  Aes256.Block.ofBytes (nonce ++ Bytes.bigEndian 4 counter)

def counterStream (key nonce : Bytes) : (blocks counter : Nat) → Bytes
  | 0, _ => []
  | blocks + 1, counter =>
    (Aes256.encrypt key (counterBlock nonce counter)).bytes ++ counterStream key nonce blocks (counter + 1)

theorem length_counterStream (key nonce : Bytes) (blocks counter : Nat) :
    (counterStream key nonce blocks counter).length = 16 * blocks := by
  induction blocks generalizing counter with
  | zero => rfl
  | succ n ih => simp [counterStream, Aes256.Block.length_bytes, ih]; omega

/-- Combines data with the counters from 2 on; doing it twice gives the data back. -/
def cover (key nonce data : Bytes) : Bytes :=
  Bytes.xor data (counterStream key nonce (blockCount data.length) 2)

def tag (key nonce associated ciphertext : Bytes) : Bytes :=
  let h := Element.ofBytes (Aes256.encrypt key (.ofBytes [])).bytes
  Bytes.xor (hash h associated ciphertext).bytes (Aes256.encrypt key (counterBlock nonce 1)).bytes

def encrypt (key nonce plaintext associated : Bytes) : Bytes :=
  let ciphertext := cover key nonce plaintext
  ciphertext ++ tag key nonce associated ciphertext

/-- The plaintext, if the last sixteen bytes are the tag of those before them. -/
def decrypt? (key nonce data associated : Bytes) : Option Bytes :=
  let ciphertext := data.take (data.length - 16)
  if 16 ≤ data.length ∧ data.drop (data.length - 16) = tag key nonce associated ciphertext then
    some (cover key nonce ciphertext)
  else none

theorem length_cover (key nonce data : Bytes) : (cover key nonce data).length = data.length := by
  simp only [cover, Bytes.xor, List.length_zipWith, length_counterStream, blockCount]
  omega

theorem cover_cover (key nonce data : Bytes) : cover key nonce (cover key nonce data) = data := by
  have same := length_cover key nonce data
  rw [cover, same]
  apply Bytes.xor_xor_cancel
  rw [length_counterStream, blockCount]
  omega

theorem length_tag (key nonce associated ciphertext : Bytes) :
    (tag key nonce associated ciphertext).length = 16 := by
  simp [tag, Bytes.xor, Element.length_bytes, Aes256.Block.length_bytes]

/-- What was encrypted is read back. -/
theorem decrypt?_encrypt (key nonce plaintext associated : Bytes) :
    decrypt? key nonce (encrypt key nonce plaintext associated) associated = some plaintext := by
  have split : (encrypt key nonce plaintext associated).length - 16 = (cover key nonce plaintext).length := by
    simp [encrypt, length_tag]
  simp only [decrypt?, split]
  simp [encrypt, length_tag, cover_cover]

end SealedFields.Gcm
