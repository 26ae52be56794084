import SealedFields.Failure

/-!
Several buffers in one: each is preceded by its length in four bytes, most significant first.
-/

namespace SealedFields.Packing

def lengthBytes : Nat := 4

def record (value : Bytes) : Bytes := Bytes.bigEndian lengthBytes value.length ++ value

def pack (values : List Bytes) : Bytes := values.flatMap record

/-- The longest buffer whose length fits in its prefix. -/
def maxLength : Nat := 0xFFFFFFFF

/-- The buffers in one, unless one of them is too long for its prefix. -/
def packAll (values : List Bytes) : Except Failure Bytes :=
  if values.any (maxLength < ·.length) then .error (.rejected "value too large for a 4-byte length prefix")
  else .ok (pack values)

/-- Reads records until nothing is left; `offset` is where the next one begins. -/
def unpackFrom (offset : Nat) (rest : Bytes) : Except FieldError (List Bytes) :=
  if rest.isEmpty then .ok []
  else if _ : rest.length < lengthBytes then
    .error (.malformedCiphertext ("truncated length prefix at offset " ++ Text.ofNat offset) (some "packed"))
  else
    let declared := Bytes.toNat (rest.take lengthBytes)
    let body := rest.drop lengthBytes
    if body.length < declared then
      .error (.malformedCiphertext ("record declares " ++ Text.ofNat declared ++ " bytes but only " ++
        Text.ofNat body.length ++ " remain") (some "packed"))
    else do
      let values ← unpackFrom (offset + lengthBytes + declared) (body.drop declared)
      return body.take declared :: values
termination_by rest.length
decreasing_by
  simp only [body, lengthBytes, List.length_drop] at *
  omega

/-- The buffers of a packed one; anything but a sequence of whole records is refused. -/
def unpack (packed : Bytes) : Except FieldError (List Bytes) := unpackFrom 0 packed

end SealedFields.Packing
