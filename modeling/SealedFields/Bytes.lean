import SealedFields.Text.Basic

/-!
Byte strings: hexadecimal text, and numbers in either byte order.
-/

namespace SealedFields

abbrev Bytes := List UInt8

namespace Hex

def digit (n : Nat) : Char := if n < 10 then Char.ofNat (48 + n) else Char.ofNat (87 + n)

def encode (bs : Bytes) : List Char :=
  bs.flatMap fun b => [digit (b.toNat / 16), digit (b.toNat % 16)]

def digit? (c : Char) : Option Nat :=
  if '0' ≤ c ∧ c ≤ '9' then some (c.toNat - 48)
  else if 'a' ≤ c ∧ c ≤ 'f' then some (c.toNat - 87)
  else if 'A' ≤ c ∧ c ≤ 'F' then some (c.toNat - 55)
  else none

/-- The six ASCII blanks, which may stand between bytes. -/
def isBlank (c : Char) : Bool :=
  c = ' ' || c = '\t' || c = '\n' || c = '\r' || c = '\x0b' || c = '\x0c'

/-- Reads pairs of digits; blanks may stand between pairs but not inside one. -/
def decode : List Char → Option Bytes
  | [] => some []
  | [c] => if isBlank c then some [] else none
  | c :: d :: cs =>
    if isBlank c then decode (d :: cs)
    else do
      let high ← digit? c
      let low ← digit? d
      let rest ← decode cs
      return UInt8.ofNat (high * 16 + low) :: rest

/-- Hexadecimal text is ASCII: any other code point makes it unreadable. -/
def ofText? (t : Text) : Option Bytes := t.chars?.bind decode

def toText (bs : Bytes) : Text := Text.ofChars (encode bs)

end Hex

namespace Bytes

def toNat (bs : Bytes) : Nat := bs.foldl (fun n b => n * 256 + b.toNat) 0

def littleEndian : (width : Nat) → Nat → Bytes
  | 0, _ => []
  | width + 1, n => UInt8.ofNat (n % 256) :: littleEndian width (n / 256)

def bigEndian (width n : Nat) : Bytes := (littleEndian width n).reverse

theorem length_littleEndian (width n : Nat) : (littleEndian width n).length = width := by
  induction width generalizing n with
  | zero => rfl
  | succ w ih => simp [littleEndian, ih]

theorem length_bigEndian (width n : Nat) : (bigEndian width n).length = width := by
  simp [bigEndian, length_littleEndian]

/-- Byte by byte, as far as both reach. -/
def xor (a b : Bytes) : Bytes := List.zipWith (· ^^^ ·) a b

theorem byte_xor_cancel (x y : UInt8) : x ^^^ y ^^^ y = x := by
  rw [UInt8.xor_assoc, UInt8.xor_self, UInt8.xor_zero]

theorem xor_xor_cancel : ∀ (a b : Bytes), a.length ≤ b.length → xor (xor a b) b = a
  | [], _, _ => by simp [xor]
  | x :: a, [], h => by simp at h
  | x :: a, y :: b, h => by
    have ih := xor_xor_cancel a b (by simpa using h)
    show (x ^^^ y ^^^ y) :: xor (xor a b) b = x :: a
    rw [byte_xor_cancel, ih]

end Bytes

end SealedFields
