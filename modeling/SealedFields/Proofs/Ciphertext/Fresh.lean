import SealedFields.Ciphertext.Codec
import SealedFields.Proofs.Ciphertext.Wire

/-!
# Fresh ciphertexts are decrypted

A plaintext is decoded from its own encoding, and a fresh ciphertext under registered parameters survives
both wire formats: its noise is the base noise, which even the compressed format keeps.
-/

namespace SealedFields

/-! ## 1. Encoding and decoding -/

namespace Codec

variable {plaintext seed : Bytes} {deviation : Float} {c c' : Ciphertext Float}

/-- What a fresh ciphertext consists of. -/
structure Encodes (plaintext : Bytes) (deviation : Float) (seed : Bytes) (c : Ciphertext Float) : Prop where
  payload : c.payload = Keystream.cover (Keystream.generate deviation seed keystreamLength) plaintext ++
    tag plaintext (Keystream.generate deviation seed keystreamLength)
  noise : c.noise = deviation

theorem encode_eq_ok (h : encode plaintext deviation seed = .ok c) :
    Encodes plaintext deviation seed c ∧ c.Valid ∧ c.bootstrapped = false ∧ c.relinearized = false := by
  unfold encode at h
  split at h
  case isTrue => cases h
  case isFalse =>
    obtain ⟨valid, rfl⟩ := Ciphertext.checked_eq_ok_iff.1 (Outcome.mapError_eq_ok_iff.1 h)
    exact ⟨⟨rfl, rfl⟩, valid, rfl, rfl⟩

theorem length_tag (plaintext stream : Bytes) : (tag plaintext stream).length = tagLength := Sha256.length_digest _

/-- The plaintext is found again, whether the tag is looked at or not. -/
theorem decode_encodes (encodes : Encodes plaintext deviation seed c) (verify : Bool) :
    decode c seed verify = .ok plaintext := by
  -- The payload is the covered plaintext and the tag, and the tag has a fixed length.
  have length : c.payload.length = plaintext.length + tagLength := by
    rw [encodes.payload, List.length_append, Keystream.length_cover, length_tag]
  have long : ¬ c.payload.length < tagLength := by omega
  have body : c.payload.length - tagLength
      = (Keystream.cover (Keystream.generate deviation seed keystreamLength) plaintext).length := by
    rw [Keystream.length_cover]
    omega
  -- Covering once more uncovers, and the tag is then the one that was appended.
  unfold decode
  dsimp only
  rw [if_neg long, body, encodes.noise, encodes.payload, List.take_left, List.drop_left, Keystream.cover_cover,
    bne_self_eq_false, Bool.and_false, if_neg Bool.false_ne_true]

end Codec

/-! ## 2. The noise of fresh ciphertexts -/

namespace Json

theorem floatText_baseNoise : floatText baseNoise = ['3', '.', '2'] := by decide +kernel

theorem ofDecimal_baseNoise : Number.ofDecimal false 32 (-1) = baseNoise := by decide

theorem number_baseNoise {rest : List Char} (ends : Ends rest) :
    number ('3' :: '.' :: '2' :: rest) = .ok (.float baseNoise, rest) := by
  have digits : ∀ c ∈ ['2'], Decimal.isDigit c = true := by
    intro c member
    obtain rfl := List.mem_singleton.1 member
    rfl
  -- The fraction ends where the value does.
  have run : Number.digitRun ('2' :: rest) = (['2'], rest) := Decimal.digitRun_append digits ends.noDigit
  have fraction : fractionDigits ('.' :: '2' :: rest) = (['2'], rest) := by
    rw [fractionDigits, run]
    rfl
  have whole : wholeDigits? ('3' :: '.' :: '2' :: rest) = some (['3'], '.' :: '2' :: rest) := rfl
  show magnitude false ('3' :: '.' :: '2' :: rest) = _
  unfold magnitude
  rw [whole]
  dsimp only
  rw [fraction]
  dsimp only
  rw [exponentPart_of_ends ends]
  dsimp only
  show Except.ok (Value.float (Number.ofDecimal false 32 (-1)), rest) = _
  rw [ofDecimal_baseNoise]

theorem reads_baseNoise : Reads (floatText baseNoise) (.float baseNoise) := by
  rw [floatText_baseNoise]
  refine ⟨⟨'3', _, rfl, by decide, by decide, by decide⟩, fun {fuel rest} ends enough => ?_⟩
  obtain ⟨fuel, rfl⟩ := exists_fuel (Nat.succ_pos _) enough
  have noWord : word? ('3' :: '.' :: '2' :: rest) = none := word?_digit (by decide) _
  have numeral := value_of_number (by decide) (by decide) (by decide) fuel noWord
  rw [number_baseNoise ends] at numeral
  exact numeral

end Json

namespace Wire

variable {c : Ciphertext Float} {t : Text}

theorem isIntegral_baseNoise : (Number.Binary64.ofFloat baseNoise).isIntegral = false := by decide

theorem wire_number_baseNoise : number baseNoise = .float baseNoise := by
  simp only [number, isIntegral_baseNoise]

theorem baseNoise_ge_least : baseNoise ≥ baseNoise - 1e-9 := by decide

theorem noiseUnits_baseNoise : noiseUnits baseNoise = .ok 3200 := by rfl

theorem quotient?_baseNoise : Number.Binary64.quotient? 3200 noiseScale = some baseNoise := by decide

/-- A ciphertext with the base noise is read from either format as it was, but for its flags. -/
theorem read_write (f : Format) (valid : c.Valid) (noise : c.noise = baseNoise) (h : write f c = .ok t) :
    ∃ d, read f t = .ok d ∧ d.payload = c.payload ∧ d.noise = c.noise := by
  cases f with
  | serialized =>
    have number : number c.noise = .float baseNoise := by rw [noise, wire_number_baseNoise]
    refine ⟨_, deserialize_serialize valid ?_ ?_ h, rfl, rfl⟩
    · rw [number]
      exact .float _ Json.reads_baseNoise
    · rw [number, noise]
      exact Check.floatFrom_of_ge baseNoise_ge_least
  | compressed =>
    -- The base noise is a whole number of units, which is why rounding down loses nothing.
    have counted : noiseUnits c.noise = .ok 3200 := by rw [noise, noiseUnits_baseNoise]
    have valid : Ciphertext.Valid { c with noise := baseNoise } := by
      rw [← noise]
      exact valid
    exact ⟨_, decompress_compress counted (by decide) quotient?_baseNoise valid h, rfl, noise.symm⟩

end Wire

/-! ## 3. Fresh ciphertexts in a wire format -/

namespace Codec

variable {plaintext : Bytes} {keys : KeyPair} {c : Ciphertext Float} {t : Text}

theorem noiseDeviation_registered (s : Scheme) : (Parameters.registered s).noiseDeviation = baseNoise := by
  cases s <;> rfl

/-- What was encrypted under registered parameters is decrypted from its wire. -/
theorem decrypt_read_encrypt (s : Scheme) (f : Wire.Format)
    (encrypted : encrypt (.registered s) plaintext keys = .ok c) (written : Wire.write f c = .ok t)
    (verify : Bool) : ∃ d, Wire.read f t = .ok d ∧ decrypt d keys verify = .ok plaintext := by
  obtain ⟨⟨payload, noise⟩, valid, -, -⟩ := encode_eq_ok encrypted
  -- Every registered scheme prescribes the base noise.
  have base : c.noise = baseNoise := noise.trans (noiseDeviation_registered s)
  obtain ⟨d, read, payload_eq, noise_eq⟩ := Wire.read_write f valid base written
  have encodes : Encodes plaintext (Parameters.registered s).noiseDeviation (keystreamSeed keys.publicKey) d :=
    ⟨payload_eq.trans payload, noise_eq.trans noise⟩
  exact ⟨d, read, decode_encodes encodes verify⟩

end Codec

end SealedFields
