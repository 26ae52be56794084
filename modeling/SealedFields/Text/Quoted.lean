import SealedFields.Bytes
import SealedFields.Text.Printable

/-!
Quoted text. The quote is the apostrophe, unless the text holds apostrophes and no double quotes. What
is not printable is written as an escape with the number of the code point.
-/

namespace SealedFields

namespace Text

def hexDigits : (width n : Nat) → List Char
  | 0, _ => []
  | width + 1, n => hexDigits width (n / 16) ++ [Hex.digit (n % 16)]

/-- The quote that is put around a text of these characters. -/
def quoteFor (hasApostrophe hasDouble : Bool) : Char := if hasApostrophe && !hasDouble then '"' else '\''

/-- Escapes shared by texts and byte strings; `none` for a character that needs none of them. -/
def shortEscape? (quote c : Char) : Option (List Char) :=
  if c = quote ∨ c = '\\' then some ['\\', c]
  else if c = '\t' then some ['\\', 't']
  else if c = '\n' then some ['\\', 'n']
  else if c = '\r' then some ['\\', 'r']
  else none

def quotePoint (quote : Char) (p : CodePoint) : Text :=
  match p.scalar?.bind (shortEscape? quote) with
  | some escape => ofChars escape
  | none =>
    if isPrintable p then [p]
    else
      let n := p.toNat
      ofChars <|
        if n < 0x100 then '\\' :: 'x' :: hexDigits 2 n
        else if n < 0x10000 then '\\' :: 'u' :: hexDigits 4 n
        else '\\' :: 'U' :: hexDigits 8 n

def quoted (t : Text) : Text :=
  let quote := quoteFor (t.any (·.is '\'')) (t.any (·.is '"'))
  .scalar quote :: t.flatMap (quotePoint quote) ++ [.scalar quote]

end Text

def Bytes.quoted (bs : Bytes) : Text :=
  let quote := Text.quoteFor (bs.any (·.toNat == 39)) (bs.any (·.toNat == 34))
  let point (b : UInt8) : List Char :=
    let c := Char.ofNat b.toNat
    (Text.shortEscape? quote c).getD
      (if 32 ≤ b.toNat ∧ b.toNat < 127 then [c] else '\\' :: 'x' :: Text.hexDigits 2 b.toNat)
  Text.ofChars ('b' :: quote :: bs.flatMap point ++ [quote])

end SealedFields
