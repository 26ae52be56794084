import SealedFields.Ciphertext.Keystream
import SealedFields.Key.Pair

/-!
Encoding plaintext as a fresh ciphertext, and back. The payload is the plaintext covered by the keystream
and followed by a tag, the digest of plaintext and keystream. The deviation of the keystream is the
ciphertext's noise level: once that has changed, the plaintext is no longer recovered.
-/

namespace SealedFields.Codec

def keystreamLength : Nat := 32

def tagLength : Nat := 32

def tag (plaintext stream : Bytes) : Bytes := Sha256.digest (plaintext ++ stream)

def encode (plaintext : Bytes) (deviation : Float) (seed : Bytes) : Except Failure (Ciphertext Float) :=
  if deviation < baseNoise then .error (.rejected "noise_std_dev must be >= 3.2")
  else
    let stream := Keystream.generate deviation seed keystreamLength
    let fresh : Ciphertext Float := {
      payload := Keystream.cover stream plaintext ++ tag plaintext stream
      noise := deviation
      depth := 0
      size := Ciphertext.freshSize
      bootstrapped := false
      relinearized := false }
    fresh.checked.mapError Ciphertext.Fault.failure

/-- The plaintext; with `verify`, only if the tag agrees. -/
def decode (c : Ciphertext Float) (seed : Bytes) (verify : Bool) : Except FieldError Bytes :=
  if c.payload.length < tagLength then
    .error (.malformedCiphertext
      ("payload of " ++ Text.ofNat c.payload.length ++ " bytes is shorter than the 32-byte tag") none)
  else
    let stream := Keystream.generate c.noise seed keystreamLength
    let bodyLength := c.payload.length - tagLength
    let plaintext := Keystream.cover stream (c.payload.take bodyLength)
    if verify && tag plaintext stream != c.payload.drop bodyLength then
      .error (.decryptionFailed "Authentication tag mismatch")
    else .ok plaintext

/-- Encodes under a key pair, with the noise that the parameters prescribe. -/
def encrypt (p : Parameters) (plaintext : Bytes) (keys : KeyPair) : Except Failure (Ciphertext Float) :=
  encode plaintext p.noiseDeviation (keystreamSeed keys.publicKey)

def decrypt (c : Ciphertext Float) (keys : KeyPair) (verify : Bool) : Except FieldError Bytes :=
  decode c (keystreamSeed keys.publicKey) verify

end SealedFields.Codec
