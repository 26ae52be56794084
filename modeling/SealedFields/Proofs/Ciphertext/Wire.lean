import SealedFields.Ciphertext.Wire
import SealedFields.Proofs.Json.RoundTrip
import SealedFields.Proofs.Outcome
import SealedFields.Proofs.Schema

/-!
# Wires are read as what was written

An envelope opens to its record. The serialized form of a ciphertext is read as the ciphertext, and so is
the compressed form, with its noise rounded down, as long as the noise itself is written and read alike.
-/

namespace SealedFields

/-! ## 1. Envelopes -/

namespace Text

theorem trimBy_of_kept {drop : CodePoint → Bool} {t : Text} (kept : ∀ p ∈ t, drop p = false) :
    t.trimBy drop = t := by
  have unchanged : ∀ {t : Text}, (∀ p ∈ t, drop p = false) → t.dropWhile drop = t := by
    intro t kept
    cases t with
    | nil => rfl
    | cons p t =>
      have keep := kept p List.mem_cons_self
      exact List.dropWhile_cons_of_neg (by rw [keep]; exact Bool.false_ne_true)
  unfold trimBy
  rw [unchanged kept, unchanged fun p hp => kept p (List.mem_reverse.1 hp), List.reverse_reverse]

theorem isStripped_plain {c : Char} (least : 0x20 < c.toNat) (most : c.toNat < 0x7F) :
    (CodePoint.scalar c).isStripped = false := by
  have value : (CodePoint.scalar c).toNat = c.toNat := rfl
  unfold CodePoint.isStripped CodePoint.isBlank
  rw [value]
  dsimp only
  generalize c.toNat = n at *
  simp only [Bool.or_eq_false_iff, Bool.and_eq_false_iff, decide_eq_false_iff_not, beq_eq_false_iff_ne]
  omega

end Text

namespace Wire

open Json (Readable)

variable {record : Entries} {t : Text}

/-- What was put into an envelope is found in it. -/
theorem openText_envelope (readable : Readable (.dict record)) (h : envelope record = .ok t) :
    openText t = .ok record := by
  unfold envelope at h
  split at h
  case h_2 => cases h
  case h_3 => cases h
  case h_1 cs printed =>
    obtain rfl := Except.ok.inj h
    have read := (Json.reads_print readable printed).document
    have plain := Base64.encode_plain (Utf8.encode cs)
    have kept : ∀ p ∈ Text.ofChars (Base64.encode (Utf8.encode cs)), p.isStripped = false := by
      intro p hp
      obtain ⟨c, hc, rfl⟩ := List.mem_map.1 hp
      exact Text.isStripped_plain (plain c hc).1 (plain c hc).2
    have ascii : (Base64.encode (Utf8.encode cs)).any (·.toNat ≥ 128) = false := by
      rw [List.any_eq_false]
      intro c hc
      have most := (plain c hc).2
      rw [decide_eq_true_iff]
      omega
    unfold openText Text.strip
    rw [Text.trimBy_of_kept kept, Text.chars?_ofChars]
    dsimp only
    rw [ascii, if_neg Bool.false_ne_true, Base64.decode_encode]
    dsimp only
    rw [Utf8.decode_encode]
    dsimp only
    rw [read]

/-! ## 2. Parts of records -/

theorem checkHex_hexText (bs : Bytes) : checkHex (.text (hexText bs)) = .ok bs := by
  have back : bytesOfHex? (hexText bs) = some bs := Hex.ofText?_toText bs
  show Checked.ofOption? (bytesOfHex? (hexText bs)) = _
  rw [back]
  rfl

theorem intFrom_int {least i : Int} (h : least ≤ i) : Check.intFrom least (.int i) = .ok i := if_pos h

theorem exists_chars_hexText (bs : Bytes) : ∃ cs, hexText bs = Text.ofChars cs :=
  ⟨"0x".toList ++ Hex.encode bs, (Text.ofChars_append _ _).symm⟩

theorem readable_text (s : String) : ∃ cs, Text.ofString s = Text.ofChars cs := ⟨s.toList, rfl⟩

theorem readable_hexText (bs : Bytes) : Readable (.text (hexText bs)) := by
  obtain ⟨cs, same⟩ := exists_chars_hexText bs
  rw [same]
  exact .text cs

/-! ## 3. The serialized form -/

variable {c : Ciphertext Float}

/-- What the serialized form holds. -/
def serializedEntries (c : Ciphertext Float) : Entries :=
  [("data", .text (hexText c.payload)), ("noise", number c.noise), ("depth", .int c.depth),
    ("size", .int c.size), ("bootstrapped", .bool c.bootstrapped)]

theorem readable_serialized (noise : Readable (number c.noise)) : Readable (.dict (serializedEntries c)) := by
  refine .dict _ ?_ ?_ ?_
  · simp only [serializedEntries, List.forall_mem_cons, List.not_mem_nil, false_implies, implies_true, and_true]
    exact ⟨readable_text _, readable_text _, readable_text _, readable_text _, readable_text _⟩
  · show ([("data" : Text), "noise", "depth", "size", "bootstrapped"] : List Text).Nodup
    decide
  · simp only [serializedEntries, List.forall_mem_cons, List.not_mem_nil, false_implies, implies_true, and_true]
    exact ⟨readable_hexText c.payload, noise, .int _, .int _, .bool _⟩

theorem serializedRecord_entries (valid : c.Valid)
    (noise : Check.floatFrom (baseNoise - 1e-9) (number c.noise) = .ok c.noise) :
    serializedRecord (serializedEntries c) = .ok ⟨c.payload, c.noise, c.depth, c.size, c.bootstrapped⟩ := by
  have size : (Ciphertext.freshSize : Int) ≤ c.size := Int.ofNat_le.2 valid.2
  have data : Check.required (serializedEntries c) "data" checkHex = .ok c.payload :=
    Check.required_of_ok rfl (checkHex_hexText c.payload)
  have noise : Check.required (serializedEntries c) "noise" (Check.floatFrom (baseNoise - 1e-9)) = .ok c.noise :=
    Check.required_of_ok rfl noise
  have depth : Check.required (serializedEntries c) "depth" (Check.intFrom 0) = .ok (c.depth : Int) :=
    Check.required_of_ok rfl (intFrom_int (Int.natCast_nonneg _))
  have size : Check.required (serializedEntries c) "size" (Check.intFrom Ciphertext.freshSize)
      = .ok (c.size : Int) := Check.required_of_ok rfl (intFrom_int size)
  have flag : Check.optional (serializedEntries c) "bootstrapped" false Check.bool = .ok c.bootstrapped :=
    Check.optional_of_ok rfl rfl
  unfold serializedRecord
  rw [data, noise, depth, size, flag]
  rfl

/-- A valid ciphertext is what its parts describe. -/
theorem ofParts_of_valid (valid : c.Valid) (bootstrapped : Bool) :
    Ciphertext.ofParts c.payload c.noise c.depth c.size bootstrapped false
      = .ok { c with bootstrapped, relinearized := false } := by
  obtain ⟨enough, size⟩ := valid
  have depth : ¬ (c.depth : Int) < 0 := by omega
  have size' : ¬ c.size < Ciphertext.freshSize := Nat.not_lt.2 size
  unfold Ciphertext.ofParts Ciphertext.checked
  simp only [Int.toNat_natCast]
  rw [enough, if_neg Bool.false_ne_true, if_neg depth, if_neg Bool.false_ne_true, if_neg size']

theorem readRecord_of_ok {α : Type} {f : Format} {check : Entries → Checked α} {a : α}
    (opened : openText t = .ok record) (passes : check record = .ok a) :
    readRecord f check (.text t) = .ok a := by
  have opened : openEnvelope (.text t) = .ok record := opened
  unfold readRecord
  rw [opened]
  dsimp only
  rw [passes]

/-- The serialized form is read as the ciphertext that was written, but for what was relinearized. -/
theorem deserialize_serialize (valid : c.Valid) (noise : Readable (number c.noise))
    (least : Check.floatFrom (baseNoise - 1e-9) (number c.noise) = .ok c.noise) (h : serialize c = .ok t) :
    deserialize (.text t) = .ok { c with relinearized := false } := by
  have opened : openText t = .ok (serializedEntries c) := openText_envelope (readable_serialized noise) h
  have found : readRecord .serialized serializedRecord (.text t) = .ok _ :=
    readRecord_of_ok opened (serializedRecord_entries valid least)
  refine Outcome.bind_eq_ok_iff.2 ⟨_, found, ?_⟩
  show ((Ciphertext.ofParts c.payload c.noise c.depth c.size c.bootstrapped false).mapError _) = _
  rw [ofParts_of_valid valid]
  rfl

/-! ## 4. The compressed form -/

variable {units : Int} {noise : Float}

/-- What the compressed form holds. -/
def compressedEntries (c : Ciphertext Float) (units : Int) : Entries :=
  [("d", .text (hexText c.payload)), ("n", .int units), ("p", .int c.depth), ("s", .int c.size)]

theorem readable_compressed (c : Ciphertext Float) (units : Int) :
    Readable (.dict (compressedEntries c units)) := by
  refine .dict _ ?_ ?_ ?_
  · simp only [compressedEntries, List.forall_mem_cons, List.not_mem_nil, false_implies, implies_true, and_true]
    exact ⟨readable_text _, readable_text _, readable_text _, readable_text _⟩
  · show ([("d" : Text), "n", "p", "s"] : List Text).Nodup
    decide
  · simp only [compressedEntries, List.forall_mem_cons, List.not_mem_nil, false_implies, implies_true, and_true]
    exact ⟨readable_hexText c.payload, .int _, .int _, .int _⟩

theorem compressedRecord_entries (size : Ciphertext.freshSize ≤ c.size) (nonneg : 0 ≤ units) :
    compressedRecord (compressedEntries c units) = .ok ⟨c.payload, units, c.depth, c.size⟩ := by
  have size : (Ciphertext.freshSize : Int) ≤ c.size := Int.ofNat_le.2 size
  have data : Check.required (compressedEntries c units) "d" checkHex = .ok c.payload :=
    Check.required_of_ok rfl (checkHex_hexText c.payload)
  have noise : Check.required (compressedEntries c units) "n" (Check.intFrom 0) = .ok units :=
    Check.required_of_ok rfl (intFrom_int nonneg)
  have depth : Check.required (compressedEntries c units) "p" (Check.intFrom 0) = .ok (c.depth : Int) :=
    Check.required_of_ok rfl (intFrom_int (Int.natCast_nonneg _))
  have size : Check.required (compressedEntries c units) "s" (Check.intFrom Ciphertext.freshSize)
      = .ok (c.size : Int) := Check.required_of_ok rfl (intFrom_int size)
  unfold compressedRecord
  rw [data, noise, depth, size]
  rfl

/-- The compressed form is read as the ciphertext with the noise that its units stand for. -/
theorem decompress_compress (counted : noiseUnits c.noise = .ok units) (nonneg : 0 ≤ units)
    (stands : Number.Binary64.quotient? units noiseScale = some noise)
    (valid : Ciphertext.Valid { c with noise }) (h : compress c = .ok t) :
    decompress (.text t) = .ok { c with noise, bootstrapped := false, relinearized := false } := by
  have h : envelope (compressedEntries c units) = .ok t := by
    unfold compress at h
    rw [counted] at h
    exact h
  have opened := openText_envelope (readable_compressed c units) h
  have found : readRecord .compressed compressedRecord (.text t) = .ok _ :=
    readRecord_of_ok opened (compressedRecord_entries valid.2 nonneg)
  refine Outcome.bind_eq_ok_iff.2 ⟨_, found, ?_⟩
  dsimp only
  rw [stands]
  show ((Ciphertext.ofParts c.payload noise c.depth c.size false false).mapError _) = _
  rw [ofParts_of_valid valid]
  rfl

end Wire

end SealedFields
