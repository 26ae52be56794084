import SealedFields.Bytes

/-!
UTF-8. Encoding is defined on characters, so it cannot meet a surrogate half; decoding accepts the
shortest form of every scalar value and nothing else.
-/

namespace SealedFields.Utf8

def encodeChar (c : Char) : Bytes :=
  let n := c.toNat
  if n < 0x80 then [UInt8.ofNat n]
  else if n < 0x800 then [UInt8.ofNat (0xC0 + n / 64), UInt8.ofNat (0x80 + n % 64)]
  else if n < 0x10000 then
    [UInt8.ofNat (0xE0 + n / 4096), UInt8.ofNat (0x80 + n / 64 % 64), UInt8.ofNat (0x80 + n % 64)]
  else
    [UInt8.ofNat (0xF0 + n / 262144), UInt8.ofNat (0x80 + n / 4096 % 64),
      UInt8.ofNat (0x80 + n / 64 % 64), UInt8.ofNat (0x80 + n % 64)]

def encode (cs : List Char) : Bytes := cs.flatMap encodeChar

def ofString (s : String) : Bytes := encode s.toList

def isTail (b : UInt8) : Bool := 0x80 ≤ b.toNat && b.toNat < 0xC0

def low (b : UInt8) : Nat := b.toNat % 64

/-- The character numbered `n`, provided it needs the length it was written in. -/
def scalar? (least n : Nat) : Option Char :=
  if least ≤ n ∧ n.isValidChar then some (Char.ofNat n) else none

/-- The character that begins with the byte `a`, given the bytes after it, and how many of them belong to
it. -/
def first? (a : UInt8) (s : Bytes) : Option (Char × Nat) :=
  let lead := a.toNat
  if lead < 0x80 then some (Char.ofNat lead, 0)
  else match s with
    | [] => none
    | b :: t =>
      if !isTail b then none
      else if lead / 32 = 6 then (scalar? 0x80 (lead % 32 * 64 + low b)).map (·, 1)
      else match t with
        | [] => none
        | c :: u =>
          if !isTail c then none
          else if lead / 16 = 14 then (scalar? 0x800 (lead % 16 * 4096 + low b * 64 + low c)).map (·, 2)
          else match u with
            | [] => none
            | d :: _ =>
              if !isTail d then none
              else if lead / 8 = 30 then
                (scalar? 0x10000 (lead % 8 * 262144 + low b * 4096 + low c * 64 + low d)).map (·, 3)
              else none

/-- The characters after the first `skip` bytes. -/
def decodeFrom : (skip : Nat) → Bytes → Option (List Char)
  | _, [] => some []
  | skip + 1, _ :: s => decodeFrom skip s
  | 0, a :: s =>
    match first? a s with
    | none => none
    | some (c, tails) => (decodeFrom tails s).map (c :: ·)

def decode (bs : Bytes) : Option (List Char) := decodeFrom 0 bs

end SealedFields.Utf8

namespace SealedFields.Text

/-- The UTF-8 bytes of a text; a surrogate half has none. -/
def utf8? (t : Text) : Option Bytes := t.chars?.map Utf8.encode

end SealedFields.Text
