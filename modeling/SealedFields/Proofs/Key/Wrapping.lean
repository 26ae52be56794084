import SealedFields.Key.Wrapper
import SealedFields.Proofs.Digest.Shake256

/-!
# Wrapped keys

Authenticated decryption accepts what authenticated encryption produces and nothing else, so that a wrapped key has
one written form for each nonce. Which texts are refused, and how, depends on their length.
-/

namespace SealedFields

/-! ## 1. Authenticated encryption -/

namespace Gcm

variable {key nonce data associated plaintext : Bytes}

theorem length_encrypt (key nonce plaintext associated : Bytes) :
    (encrypt key nonce plaintext associated).length = plaintext.length + 16 := by
  rw [encrypt, List.length_append, length_cover, length_tag]

/-- What is decrypted is the encryption of its plaintext. -/
theorem eq_encrypt_of_decrypt? (h : decrypt? key nonce data associated = some plaintext) :
    data = encrypt key nonce plaintext associated := by
  unfold decrypt? at h
  dsimp only at h
  split at h
  case isTrue authentic =>
    obtain rfl := Option.some.inj h
    -- The ciphertext is covered twice, and the tag was found to be the right one.
    rw [encrypt, cover_cover, ← authentic.2, List.take_append_drop]
  case isFalse => cases h

end Gcm

/-! ## 2. Wrapping -/

namespace KeyWrapper

variable {w : KeyWrapper} {wrapped other key nonce : Bytes} {associated : Option Bytes}

theorem length_wrapWith (w : KeyWrapper) (nonce key : Bytes) (associated : Option Bytes) :
    (w.wrapWith nonce key associated).length = nonce.length + key.length + 16 := by
  rw [wrapWith, List.length_append, Gcm.length_encrypt, Nat.add_assoc]

/-- A text that is unwrapped is its nonce and the encryption of the key. -/
theorem eq_wrapWith_of_unwrap (h : w.unwrap wrapped associated = .ok key) :
    wrapped = w.wrapWith (wrapped.take nonceSize) key associated := by
  unfold unwrap at h
  dsimp only at h
  split at h
  case isTrue => cases h
  case isFalse =>
    split at h
    case h_1 key' decrypted =>
      obtain rfl := Except.ok.inj h
      rw [wrapWith, ← Gcm.eq_encrypt_of_decrypt? decrypted, List.take_append_drop]
    case h_2 => cases h

/-- It has room for a whole nonce, as the tag is not empty. -/
theorem length_nonce_of_unwrap (h : w.unwrap wrapped associated = .ok key) :
    (wrapped.take nonceSize).length = nonceSize := by
  have length := congrArg List.length (eq_wrapWith_of_unwrap h)
  rw [length_wrapWith, List.length_take] at length
  rw [List.length_take]
  omega

/-- Unwrapping accepts what wrapping produces, and nothing else. -/
theorem unwrap_eq_ok_iff : w.unwrap wrapped associated = .ok key ↔
    ∃ nonce, nonce.length = nonceSize ∧ wrapped = w.wrapWith nonce key associated := by
  constructor
  · exact fun h => ⟨_, length_nonce_of_unwrap h, eq_wrapWith_of_unwrap h⟩
  · rintro ⟨nonce, length, rfl⟩
    exact w.unwrap_wrapWith nonce key associated length

/-- How a text is refused: one too short for any nonce is no argument for the cipher, any other is unauthentic. -/
def refusal (wrapped : Bytes) : Failure :=
  if wrapped.length < leastNonceSize then .badValue else .raised .inauthentic []

theorem unwrap_eq_error {f : Failure} (h : w.unwrap wrapped associated = .error f) : f = refusal wrapped := by
  have short : (wrapped.take nonceSize).length < leastNonceSize ↔ wrapped.length < leastNonceSize := by
    rw [List.length_take, nonceSize, leastNonceSize]
    omega
  unfold unwrap at h
  dsimp only at h
  rw [refusal]
  split at h
  case isTrue less =>
    rw [if_pos (short.1 less)]
    exact (Except.error.inj h).symm
  case isFalse enough =>
    rw [if_neg (mt short.2 enough)]
    split at h
    case h_1 => cases h
    case h_2 => exact (Except.error.inj h).symm

/-- Wrapping is exact. A wrapped key is unwrapped again, with the same associated data, and takes 28 bytes more than
the key. A text that is unwrapped is what wrapping its key under its first twelve bytes gives, so that there is one
text for each nonce, key and associated data. -/
theorem wrapping_exact (w : KeyWrapper) (key : Bytes) (associated : Option Bytes) (entropy : Entropy)
    (drawn : (entropy.draw nonceSize).1.length = nonceSize) :
    w.unwrap (w.wrap key associated entropy).1 associated = .ok key ∧
    (w.wrap key associated entropy).1.length = key.length + 28 ∧
    (∀ wrapped k, w.unwrap wrapped associated = .ok k →
      wrapped = wrapped.take 12 ++ Gcm.encrypt w.masterKey (wrapped.take 12) k (associated.getD []) ∧
      ∀ other, w.unwrap other associated = .ok k → other.take 12 = wrapped.take 12 → other = wrapped) ∧
    (∀ wrapped k, w.unwrap wrapped associated = .ok k ↔ ∃ nonce : Bytes,
      nonce.length = 12 ∧ wrapped = nonce ++ Gcm.encrypt w.masterKey nonce k (associated.getD [])) := by
  refine ⟨w.unwrap_wrapWith _ key associated drawn, ?_, fun wrapped k h => ⟨eq_wrapWith_of_unwrap h, ?_⟩,
    fun wrapped k => unwrap_eq_ok_iff⟩
  · have length := length_wrapWith w (entropy.draw nonceSize).1 key associated
    have size : nonceSize = 12 := rfl
    rw [drawn] at length
    show (w.wrapWith (entropy.draw nonceSize).1 key associated).length = key.length + 28
    omega
  · intro other h' same
    calc other = w.wrapWith (other.take nonceSize) k associated := eq_wrapWith_of_unwrap h'
      _ = w.wrapWith (wrapped.take nonceSize) k associated := congrArg (w.wrapWith · k associated) same
      _ = wrapped := (eq_wrapWith_of_unwrap h).symm

/-- A wrapper, and a key that leaves its last block unfinished. -/
theorem wrapping_exact_unfinished :
    let w : KeyWrapper := ⟨List.replicate 32 0x11, rfl⟩
    let key : Bytes := List.replicate 37 0xAB
    (Entropy.reproducible.draw nonceSize).1.length = nonceSize ∧
      w.unwrap (w.wrap key (some [1, 2, 3]) .reproducible).1 (some [1, 2, 3]) = .ok key ∧
      (w.wrap key (some [1, 2, 3]) .reproducible).1.length = 65 := by
  intro w key
  have drawn : (Entropy.reproducible.draw nonceSize).1.length = nonceSize := Shake256.length_digest _ _
  obtain ⟨inverse, length, -⟩ := wrapping_exact w key (some [1, 2, 3]) .reproducible drawn
  exact ⟨drawn, inverse, length⟩

end KeyWrapper

end SealedFields
