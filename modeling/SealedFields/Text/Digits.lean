import SealedFields.Text.Basic

/-!
Blanks and decimal digits of all scripts (Unicode 14). The digits of a script are ten neighbours in
ascending order, so a table of zeros is enough.
-/

namespace SealedFields

namespace CodePoint

def isBlank : CodePoint → Bool
  | .scalar c =>
    let n := c.toNat
    (9 ≤ n && n ≤ 13) || n == 0x20 || n == 0x85 || n == 0xA0 || n == 0x1680 ||
      (0x2000 ≤ n && n ≤ 0x200A) || n == 0x2028 || n == 0x2029 || n == 0x202F || n == 0x205F || n == 0x3000
  | .surrogate _ => false

/-- White space and the four information separators, which end a line of text. -/
def isStripped (p : CodePoint) : Bool := p.isBlank || (0x1C ≤ p.toNat && p.toNat ≤ 0x1F)

def zeros : List Nat := [
    0x30, 0x660, 0x6f0, 0x7c0, 0x966, 0x9e6, 0xa66, 0xae6, 0xb66, 0xbe6, 0xc66, 0xce6, 0xd66, 0xde6,
    0xe50, 0xed0, 0xf20, 0x1040, 0x1090, 0x17e0, 0x1810, 0x1946, 0x19d0, 0x1a80, 0x1a90, 0x1b50,
    0x1bb0, 0x1c40, 0x1c50, 0xa620, 0xa8d0, 0xa900, 0xa9d0, 0xa9f0, 0xaa50, 0xabf0, 0xff10, 0x104a0,
    0x10d30, 0x11066, 0x110f0, 0x11136, 0x111d0, 0x112f0, 0x11450, 0x114d0, 0x11650, 0x116c0,
    0x11730, 0x118e0, 0x11950, 0x11c50, 0x11d50, 0x11da0, 0x16a60, 0x16ac0, 0x16b50, 0x1d7ce,
    0x1d7d8, 0x1d7e2, 0x1d7ec, 0x1d7f6, 0x1e140, 0x1e2f0, 0x1e950, 0x1fbf0]

def decimal? (p : CodePoint) : Option Nat :=
  (zeros.find? fun z => z ≤ p.toNat && p.toNat ≤ z + 9).map (p.toNat - ·)

end CodePoint

namespace Text

/-- `t` without the code points that `drop` accepts at either end. -/
def trimBy (drop : CodePoint → Bool) (t : Text) : Text :=
  ((t.dropWhile drop).reverse.dropWhile drop).reverse

def trim (t : Text) : Text := t.trimBy CodePoint.isBlank

def strip (t : Text) : Text := t.trimBy CodePoint.isStripped

end Text

end SealedFields
