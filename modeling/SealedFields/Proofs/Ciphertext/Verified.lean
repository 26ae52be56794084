import SealedFields.Proofs.Ciphertext.Fresh
import SealedFields.Proofs.Number.Bits

/-!
# Verified decoding inverts encoding

A plaintext is decoded from its own encoding, and what a verified decoding accepts is an encoding: the keystream
depends on noise and seed only, so that the plaintext determines both parts of the payload.
-/

namespace SealedFields.Codec

open Number (FromZero)

variable {plaintext seed : Bytes} {deviation : Float} {c : Ciphertext Float}

/-! ## 1. What is encoded -/

/-- The payload of an encoding. -/
def payload (plaintext : Bytes) (deviation : Float) (seed : Bytes) : Bytes :=
  let stream := Keystream.generate deviation seed keystreamLength
  Keystream.cover stream plaintext ++ tag plaintext stream

theorem length_payload (plaintext : Bytes) (deviation : Float) (seed : Bytes) :
    (payload plaintext deviation seed).length = plaintext.length + 32 := by
  show (_ ++ tag plaintext _).length = _
  rw [List.length_append, Keystream.length_cover, length_tag]
  rfl

/-- A deviation that is not too low is above the bound for ciphertexts, too. -/
theorem not_lt_least (enough : ¬ deviation < baseNoise) : ¬ deviation < baseNoise - 1e-9 := by
  have least : FromZero (baseNoise - 1e-9) := by decide
  have base : FromZero baseNoise := by decide
  have positive : 0 < baseNoise.toBits.toNat := by decide
  exact least.not_lt_of_not_lt base positive Wire.baseNoise_ge_least enough

theorem encode_of_enough (enough : ¬ deviation < baseNoise) : encode plaintext deviation seed
    = .ok ⟨payload plaintext deviation seed, deviation, 0, Ciphertext.freshSize, false, false⟩ := by
  have valid : NoiseArithmetic.less deviation NoiseArithmetic.least = false :=
    decide_eq_false (not_lt_least enough)
  unfold encode Ciphertext.checked
  dsimp only
  rw [if_neg enough, valid]
  rfl

theorem exists_encode_iff : (∃ c, encode plaintext deviation seed = .ok c) ↔ ¬ deviation < baseNoise := by
  constructor
  · rintro ⟨c, encoded⟩ low
    unfold encode at encoded
    rw [if_pos low] at encoded
    cases encoded
  · intro enough
    exact ⟨_, encode_of_enough enough⟩

/-! ## 2. What is accepted -/

/-- A verified decoding accepts the encoding of the plaintext that it returns, and nothing else. -/
theorem decode_verified_iff : decode c seed true = .ok plaintext ↔ c.payload = payload plaintext c.noise seed := by
  constructor
  · intro h
    unfold decode at h
    split at h
    case isTrue => cases h
    case isFalse long =>
      dsimp only at h
      split at h
      case isTrue => cases h
      case isFalse agrees =>
        obtain rfl := Except.ok.inj h
        have same := by simpa using agrees
        unfold payload
        dsimp only
        -- Covering twice gives the covered part, and the tag is the rest of the payload.
        rw [Keystream.cover_cover, same, List.take_append_drop]
  · intro same
    exact decode_encodes ⟨same, rfl⟩ true

/-- Encoding accepts every deviation that is not below the base noise, and a plaintext is decoded from its
encoding, with the tag looked at or not. Conversely, what a verified decoding returns encodes to the payload
again, at the noise of the ciphertext. So each plaintext has exactly one payload that is accepted. -/
theorem decode_inverts_encode (seed : Bytes) :
    (∀ plaintext deviation, ((∃ c, encode plaintext deviation seed = .ok c) ↔ ¬ deviation < baseNoise) ∧
      ∀ c, encode plaintext deviation seed = .ok c →
        c.payload.length = plaintext.length + 32 ∧ ∀ verify, decode c seed verify = .ok plaintext) ∧
    (∀ c plaintext, baseNoise ≤ c.noise → decode c seed true = .ok plaintext →
      ∃ d, encode plaintext c.noise seed = .ok d ∧ d.payload = c.payload) ∧
    ∀ plaintext noise, ∃! bytes, ∀ c : Ciphertext Float, c.noise = noise →
      (decode c seed true = .ok plaintext ↔ c.payload = bytes) := by
  refine ⟨fun plaintext deviation => ⟨exists_encode_iff, fun c encoded => ?_⟩, ?_, ?_⟩
  · obtain ⟨encodes, -, -, -⟩ := encode_eq_ok encoded
    refine ⟨?_, decode_encodes encodes⟩
    rw [encodes.payload]
    exact length_payload plaintext deviation seed
  · intro c plaintext enough decoded
    exact ⟨_, encode_of_enough (Number.not_lt_of_le enough), (decode_verified_iff.1 decoded).symm⟩
  · intro plaintext noise
    refine ⟨payload plaintext noise seed, ?_, ?_⟩
    · rintro c rfl
      exact decode_verified_iff
    · intro bytes accepted
      -- A ciphertext with the payload of the encoding is accepted, so that the payload is the one given.
      let encoded : Ciphertext Float :=
        ⟨payload plaintext noise seed, noise, 0, Ciphertext.freshSize, false, false⟩
      exact ((accepted encoded rfl).1 (decode_verified_iff.2 rfl)).symm

/-- Three bytes at the base noise. -/
theorem decode_inverts_encode_three : ¬ baseNoise < baseNoise ∧ ∃ c, encode [1, 2, 3] baseNoise [7] = .ok c ∧
    baseNoise ≤ c.noise ∧ decode c [7] true = .ok [1, 2, 3] ∧
    ∃ d, encode [1, 2, 3] c.noise [7] = .ok d ∧ d.payload = c.payload := by
  have enough : ¬ baseNoise < baseNoise := by decide
  obtain ⟨accepts, inverts⟩ := (decode_inverts_encode [7]).1 [1, 2, 3] baseNoise
  obtain ⟨c, encoded⟩ := accepts.2 enough
  have decoded := (inverts c encoded).2 true
  have base : baseNoise ≤ c.noise := by
    rw [(encode_eq_ok encoded).1.noise]
    decide
  exact ⟨enough, c, encoded, base, decoded, (decode_inverts_encode [7]).2.1 c [1, 2, 3] base decoded⟩

end SealedFields.Codec
