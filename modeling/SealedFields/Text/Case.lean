import SealedFields.Text.Basic

/-!
Comparing with keywords regardless of case. The keywords are ASCII, so only the code points whose other case
is made of ASCII letters matter. Besides the ASCII letters themselves these are the Kelvin sign in lower
case, and the dotless i, the long s, the sharp s and the Latin ligatures in upper case. The last two stand
for several letters each, so a text may grow.
-/

namespace SealedFields

namespace CodePoint

/-- The lower-case form, as far as keywords can tell. A dotted capital keeps its dot as a mark of its own. -/
def lower (p : CodePoint) : Text :=
  match p with
  | .scalar c =>
    if 'A' ≤ c ∧ c ≤ 'Z' then Text.ofChars [Char.ofNat (c.toNat + 32)]
    else if c = '\u212A' then "k"
    else if c = '\u0130' then "i\u0307"
    else [p]
  | .surrogate _ => [p]

/-- The code points that stand for several letters in upper case. -/
def ligatures : List (Char × Text) :=
  [('\u00DF', "SS"), ('\uFB00', "FF"), ('\uFB01', "FI"), ('\uFB02', "FL"), ('\uFB03', "FFI"), ('\uFB04', "FFL"),
    ('\uFB05', "ST"), ('\uFB06', "ST")]

/-- The upper-case form, as far as keywords can tell. -/
def upper (p : CodePoint) : Text :=
  match p with
  | .scalar c =>
    if 'a' ≤ c ∧ c ≤ 'z' then Text.ofChars [Char.ofNat (c.toNat - 32)]
    else if c = '\u0131' then "I"
    else if c = '\u017F' then "S"
    else (ligatures.lookup c).getD [p]
  | .surrogate _ => [p]

end CodePoint

namespace Text

def lower (t : Text) : Text := t.flatMap CodePoint.lower

def upper (t : Text) : Text := t.flatMap CodePoint.upper

end Text

end SealedFields
