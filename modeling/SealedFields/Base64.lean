import SealedFields.Bytes

/-!
Base64 with padding. Reading is strict about the alphabet and about padding inside the text; padding
after a complete group of four is passed over, and unused bits of the last digit are not looked at.
-/

namespace SealedFields.Base64

def digit (n : Nat) : Char :=
  if n < 26 then Char.ofNat (65 + n)
  else if n < 52 then Char.ofNat (71 + n)
  else if n < 62 then Char.ofNat (n - 4)
  else if n = 62 then '+'
  else '/'

def digit? (c : Char) : Option Nat :=
  if 'A' ≤ c ∧ c ≤ 'Z' then some (c.toNat - 65)
  else if 'a' ≤ c ∧ c ≤ 'z' then some (c.toNat - 71)
  else if '0' ≤ c ∧ c ≤ '9' then some (c.toNat + 4)
  else if c = '+' then some 62
  else if c = '/' then some 63
  else none

/-- Three bytes as four digits; one or two bytes at the end are padded. -/
def encode : Bytes → List Char
  | [] => []
  | [a] => [digit (a.toNat / 4), digit (a.toNat % 4 * 16), '=', '=']
  | [a, b] =>
    [digit (a.toNat / 4), digit (a.toNat % 4 * 16 + b.toNat / 16), digit (b.toNat % 16 * 4), '=']
  | a :: b :: c :: bs =>
    digit (a.toNat / 4) :: digit (a.toNat % 4 * 16 + b.toNat / 16) ::
      digit (b.toNat % 16 * 4 + c.toNat / 64) :: digit (c.toNat % 64) :: encode bs

def byte (high low : Nat) : UInt8 := UInt8.ofNat (high + low)

/-- Reads groups of four digits. The last group may be cut to three digits and `=`, or two and `==`;
more padding may follow a complete group. -/
def decode : List Char → Option Bytes
  | [] => some []
  | [p, q, '=', '='] => do
    let w ← digit? p
    let x ← digit? q
    return [byte (w * 4) (x / 16)]
  | [p, q, r, '='] => do
    let w ← digit? p
    let x ← digit? q
    let y ← digit? r
    return [byte (w * 4) (x / 16), byte (x % 16 * 16) (y / 4)]
  | p :: q :: r :: s :: cs => do
    let w ← digit? p
    let x ← digit? q
    let y ← digit? r
    let z ← digit? s
    let group := [byte (w * 4) (x / 16), byte (x % 16 * 16) (y / 4), byte (y % 4 * 64) z]
    if cs.all (· == '=') then return group
    else
      let rest ← decode cs
      return group ++ rest
  | _ => none

end SealedFields.Base64
