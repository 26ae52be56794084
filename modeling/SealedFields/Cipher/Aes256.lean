import SealedFields.Bytes

/-!
AES with a 256-bit key, in the forward direction, which is all that counter mode needs. A block is its
sixteen bytes in order, four to a column.
-/

namespace SealedFields.Aes256

/-- The substitution box: inversion in the field of 256 elements, then an affine map. -/
def box : Array UInt8 := #[
  0x63, 0x7c, 0x77, 0x7b, 0xf2, 0x6b, 0x6f, 0xc5, 0x30, 0x01, 0x67, 0x2b, 0xfe, 0xd7, 0xab, 0x76,
  0xca, 0x82, 0xc9, 0x7d, 0xfa, 0x59, 0x47, 0xf0, 0xad, 0xd4, 0xa2, 0xaf, 0x9c, 0xa4, 0x72, 0xc0,
  0xb7, 0xfd, 0x93, 0x26, 0x36, 0x3f, 0xf7, 0xcc, 0x34, 0xa5, 0xe5, 0xf1, 0x71, 0xd8, 0x31, 0x15,
  0x04, 0xc7, 0x23, 0xc3, 0x18, 0x96, 0x05, 0x9a, 0x07, 0x12, 0x80, 0xe2, 0xeb, 0x27, 0xb2, 0x75,
  0x09, 0x83, 0x2c, 0x1a, 0x1b, 0x6e, 0x5a, 0xa0, 0x52, 0x3b, 0xd6, 0xb3, 0x29, 0xe3, 0x2f, 0x84,
  0x53, 0xd1, 0x00, 0xed, 0x20, 0xfc, 0xb1, 0x5b, 0x6a, 0xcb, 0xbe, 0x39, 0x4a, 0x4c, 0x58, 0xcf,
  0xd0, 0xef, 0xaa, 0xfb, 0x43, 0x4d, 0x33, 0x85, 0x45, 0xf9, 0x02, 0x7f, 0x50, 0x3c, 0x9f, 0xa8,
  0x51, 0xa3, 0x40, 0x8f, 0x92, 0x9d, 0x38, 0xf5, 0xbc, 0xb6, 0xda, 0x21, 0x10, 0xff, 0xf3, 0xd2,
  0xcd, 0x0c, 0x13, 0xec, 0x5f, 0x97, 0x44, 0x17, 0xc4, 0xa7, 0x7e, 0x3d, 0x64, 0x5d, 0x19, 0x73,
  0x60, 0x81, 0x4f, 0xdc, 0x22, 0x2a, 0x90, 0x88, 0x46, 0xee, 0xb8, 0x14, 0xde, 0x5e, 0x0b, 0xdb,
  0xe0, 0x32, 0x3a, 0x0a, 0x49, 0x06, 0x24, 0x5c, 0xc2, 0xd3, 0xac, 0x62, 0x91, 0x95, 0xe4, 0x79,
  0xe7, 0xc8, 0x37, 0x6d, 0x8d, 0xd5, 0x4e, 0xa9, 0x6c, 0x56, 0xf4, 0xea, 0x65, 0x7a, 0xae, 0x08,
  0xba, 0x78, 0x25, 0x2e, 0x1c, 0xa6, 0xb4, 0xc6, 0xe8, 0xdd, 0x74, 0x1f, 0x4b, 0xbd, 0x8b, 0x8a,
  0x70, 0x3e, 0xb5, 0x66, 0x48, 0x03, 0xf6, 0x0e, 0x61, 0x35, 0x57, 0xb9, 0x86, 0xc1, 0x1d, 0x9e,
  0xe1, 0xf8, 0x98, 0x11, 0x69, 0xd9, 0x8e, 0x94, 0x9b, 0x1e, 0x87, 0xe9, 0xce, 0x55, 0x28, 0xdf,
  0x8c, 0xa1, 0x89, 0x0d, 0xbf, 0xe6, 0x42, 0x68, 0x41, 0x99, 0x2d, 0x0f, 0xb0, 0x54, 0xbb, 0x16]

def substitute (b : UInt8) : UInt8 := box.getD b.toNat 0

def double (b : UInt8) : UInt8 := (b <<< 1) ^^^ (if b.toNat < 128 then 0 else 0x1B)

structure Word where
  a : UInt8
  b : UInt8
  c : UInt8
  d : UInt8
  deriving DecidableEq, Inhabited

namespace Word

def xor (v w : Word) : Word := ⟨v.a ^^^ w.a, v.b ^^^ w.b, v.c ^^^ w.c, v.d ^^^ w.d⟩

def substitute (w : Word) : Word :=
  ⟨Aes256.substitute w.a, Aes256.substitute w.b, Aes256.substitute w.c, Aes256.substitute w.d⟩

/-- The column times the fixed polynomial `3x³ + x² + x + 2`. -/
def mix (w : Word) : Word :=
  let all := w.a ^^^ w.b ^^^ w.c ^^^ w.d
  ⟨w.a ^^^ all ^^^ double (w.a ^^^ w.b), w.b ^^^ all ^^^ double (w.b ^^^ w.c),
    w.c ^^^ all ^^^ double (w.c ^^^ w.d), w.d ^^^ all ^^^ double (w.d ^^^ w.a)⟩

def bytes (w : Word) : Bytes := [w.a, w.b, w.c, w.d]

end Word

structure Block where
  w0 : Word
  w1 : Word
  w2 : Word
  w3 : Word
  deriving DecidableEq, Inhabited

namespace Block

def xor (s t : Block) : Block := ⟨s.w0.xor t.w0, s.w1.xor t.w1, s.w2.xor t.w2, s.w3.xor t.w3⟩

/-- Row `r` is moved `r` columns to the left. -/
def shiftRows (s : Block) : Block :=
  ⟨⟨s.w0.a, s.w1.b, s.w2.c, s.w3.d⟩, ⟨s.w1.a, s.w2.b, s.w3.c, s.w0.d⟩,
    ⟨s.w2.a, s.w3.b, s.w0.c, s.w1.d⟩, ⟨s.w3.a, s.w0.b, s.w1.c, s.w2.d⟩⟩

def substitute (s : Block) : Block :=
  ⟨s.w0.substitute, s.w1.substitute, s.w2.substitute, s.w3.substitute⟩

def mix (s : Block) : Block := ⟨s.w0.mix, s.w1.mix, s.w2.mix, s.w3.mix⟩

def bytes (s : Block) : Bytes := s.w0.bytes ++ s.w1.bytes ++ s.w2.bytes ++ s.w3.bytes

/-- The first sixteen bytes; missing ones are zero. -/
def ofBytes (bs : Bytes) : Block :=
  let word (i : Nat) : Word := ⟨bs.getD i 0, bs.getD (i + 1) 0, bs.getD (i + 2) 0, bs.getD (i + 3) 0⟩
  ⟨word 0, word 4, word 8, word 12⟩

theorem length_bytes (s : Block) : s.bytes.length = 16 := by
  simp [bytes, Word.bytes]

end Block

/-- The next round key after two, the older first: words are turned and take in a round constant in
every other round key. -/
def nextRoundKey (turned : Bool) (constant : UInt8) (older newer : Block) : Block :=
  let last := newer.w3
  let seed : Word :=
    if turned then (Word.mk last.b last.c last.d last.a).substitute.xor ⟨constant, 0, 0, 0⟩
    else last.substitute
  let w0 := older.w0.xor seed
  let w1 := older.w1.xor w0
  let w2 := older.w2.xor w1
  ⟨w0, w1, w2, older.w3.xor w2⟩

/-- `count` more round keys after two. -/
def roundKeysFrom : (count : Nat) → (turned : Bool) → (constant : UInt8) → Block → Block → List Block
  | 0, _, _, _, _ => []
  | count + 1, turned, constant, older, newer =>
    let next := nextRoundKey turned constant older newer
    next :: roundKeysFrom count (!turned) (if turned then double constant else constant) newer next

def roundKeys (key : Bytes) : List Block :=
  let first := Block.ofBytes key
  let second := Block.ofBytes (key.drop 16)
  first :: second :: roundKeysFrom 13 true 1 first second

/-- All rounds after the first key was added; the last one does not mix columns. -/
def rounds : List Block → Block → Block
  | [], s => s
  | [k], s => s.substitute.shiftRows.xor k
  | k :: ks, s => rounds ks (s.substitute.shiftRows.mix.xor k)

def encrypt (key : Bytes) (block : Block) : Block :=
  match roundKeys key with
  | [] => block
  | k :: ks => rounds ks (block.xor k)

end SealedFields.Aes256
