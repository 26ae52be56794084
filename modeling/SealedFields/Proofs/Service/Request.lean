import SealedFields.Proofs.Schema
import SealedFields.Service.Request

/-!
# Requests that pass their checks

What the service answers is accepted when it comes back in a request, and a request that was accepted asks
for what the service knows.
-/

namespace SealedFields

/-! ## 1. What was answered is accepted -/

theorem Wire.checkFormat_name (f : Wire.Format) : Wire.checkFormat (.text f.name) = .ok f := by
  cases f <;> rfl

/-- Metadata is accepted if its security level is one that the service knows. -/
theorem Metadata.check_toEntries {m : Metadata} (listed : Check.securityLevels.contains m.securityLevel = true) :
    Metadata.check (.dict m.toEntries) = .ok m := by
  have int : ∀ i : Int, Value.int i ≠ .null ∧ Check.int (.int i) = .ok i := fun i => ⟨(nomatch ·), rfl⟩
  have scheme : Check.required m.toEntries "scheme" Check.scheme = .ok m.scheme :=
    Check.required_of_ok rfl (Check.scheme_tag m.scheme)
  have level : Check.required m.toEntries "security_level" Check.securityLevel = .ok m.securityLevel :=
    Check.required_of_ok rfl (Check.securityLevel_int listed)
  have noise : Check.required m.toEntries "noise_level" Check.float = .ok m.noiseLevel :=
    Check.required_of_ok rfl rfl
  have bootstrappable : Check.optional m.toEntries "bootstrappable" false Check.bool = .ok m.bootstrappable :=
    Check.optional_of_ok rfl rfl
  have timestamp : Check.required m.toEntries "timestamp" Check.int = .ok m.timestamp :=
    Check.required_of_ok rfl rfl
  have version : Check.optional m.toEntries "version" SealedFields.version Check.text = .ok m.version :=
    Check.optional_of_ok rfl rfl
  have depth : Check.optional m.toEntries "depth" none (Check.nullable Check.int) = .ok m.depth :=
    Check.optional_of_ok rfl (Check.nullable_ofOption int m.depth)
  have size : Check.optional m.toEntries "size" none (Check.nullable Check.int) = .ok m.size :=
    Check.optional_of_ok rfl (Check.nullable_ofOption int m.size)
  have encoding : Check.optional m.toEntries "encoding" .serialized Wire.checkFormat = .ok m.encoding :=
    Check.optional_of_ok rfl (Wire.checkFormat_name m.encoding)
  unfold Metadata.check Check.record
  dsimp only
  rw [scheme, level, noise, bootstrappable, timestamp, version, depth, size, encoding]
  rfl

theorem DecryptionRequest.check_toEntries {r : DecryptionRequest}
    (listed : Check.securityLevels.contains r.metadata.securityLevel = true) :
    DecryptionRequest.check (.dict r.toEntries) = .ok r := by
  have name : Check.required r.toEntries "field_name" Check.text = .ok r.fieldName :=
    Check.required_of_ok rfl rfl
  have wire : Check.required r.toEntries "encrypted_value" Check.text = .ok r.encryptedValue :=
    Check.required_of_ok rfl rfl
  have metadata : Check.required r.toEntries "metadata" Metadata.check = .ok r.metadata :=
    Check.required_of_ok rfl (Metadata.check_toEntries listed)
  have dataType : Check.required r.toEntries "original_data_type" Check.text = .ok r.dataType :=
    Check.required_of_ok rfl rfl
  have verify : Check.optional r.toEntries "verify" false Check.bool = .ok r.verify :=
    Check.optional_of_ok rfl rfl
  unfold DecryptionRequest.check Check.record
  dsimp only
  rw [name, wire, metadata, dataType, verify]
  rfl

theorem PackedFields.check_toEntries {p : PackedFields}
    (listed : Check.securityLevels.contains p.metadata.securityLevel = true) :
    PackedFields.check (.dict p.toEntries) = .ok p := by
  have texts : ∀ ts : List Text, Check.list Check.text (.list (ts.map .text)) = .ok ts :=
    Check.list_of_ok fun _ => rfl
  have names : Check.required p.toEntries "field_names" (Check.list Check.text) = .ok p.fieldNames :=
    Check.required_of_ok rfl (texts p.fieldNames)
  have dataTypes : Check.required p.toEntries "data_types" (Check.list Check.text) = .ok p.dataTypes :=
    Check.required_of_ok rfl (texts p.dataTypes)
  have wire : Check.required p.toEntries "encrypted_value" Check.text = .ok p.encryptedValue :=
    Check.required_of_ok rfl rfl
  have metadata : Check.required p.toEntries "metadata" Metadata.check = .ok p.metadata :=
    Check.required_of_ok rfl (Metadata.check_toEntries listed)
  have hash : Check.required p.toEntries "public_key_hash" Check.text = .ok p.publicKeyHash :=
    Check.required_of_ok rfl rfl
  unfold PackedFields.check Check.record
  dsimp only
  rw [names, dataTypes, wire, metadata, hash]
  rfl

/-! ## 2. What was accepted is known -/

/-- A security level that an accepted request names is one that the service knows. -/
theorem EncryptionRequest.listed_of_check {v : Value} {r : EncryptionRequest}
    (h : EncryptionRequest.check v = .ok r) {level : Int} (named : r.securityLevel = some level) :
    Check.securityLevels.contains level = true := by
  obtain ⟨es, -, parts⟩ := Check.record_eq_ok h
  -- The level is the third part from the end of the record.
  obtain ⟨_, onChain, before₁, -, rfl⟩ := Checked.seq_eq_ok_iff.1 parts
  obtain ⟨_, bootstrapping, before₂, -, rfl⟩ := Checked.seq_eq_ok_iff.1 before₁
  obtain ⟨_, asked, before₃, passed, rfl⟩ := Checked.seq_eq_ok_iff.1 before₂
  obtain ⟨_, scheme, before₄, -, rfl⟩ := Checked.seq_eq_ok_iff.1 before₃
  obtain ⟨_, dataType, before₅, -, rfl⟩ := Checked.seq_eq_ok_iff.1 before₄
  obtain ⟨_, value, before₆, -, rfl⟩ := Checked.seq_eq_ok_iff.1 before₅
  obtain ⟨name, -, rfl⟩ := Checked.map_eq_ok_iff.1 before₆
  obtain rfl : asked = some level := named
  rcases Check.optional_eq_ok passed with left | ⟨v, passed⟩
  · cases left
  · rcases Check.nullable_eq_ok passed with null | ⟨b, same, passed⟩
    · cases null
    · obtain rfl := Option.some.inj same
      exact Check.securityLevel_eq_ok passed

/-- The fields of an accepted batch were accepted. -/
theorem BatchEncryption.fields_of_check {v : Value} {r : BatchEncryption} (h : BatchEncryption.check v = .ok r) :
    ∀ field ∈ r.fields, ∃ v, EncryptionRequest.check v = .ok field := by
  obtain ⟨es, -, parts⟩ := Check.record_eq_ok h
  obtain ⟨_, compressed, before₁, -, rfl⟩ := Checked.seq_eq_ok_iff.1 parts
  obtain ⟨_, packed, before₂, -, rfl⟩ := Checked.seq_eq_ok_iff.1 before₁
  obtain ⟨_, scheme, before₃, -, rfl⟩ := Checked.seq_eq_ok_iff.1 before₂
  obtain ⟨fields, passed, rfl⟩ := Checked.map_eq_ok_iff.1 before₃
  obtain ⟨v, -, passed⟩ := Check.required_eq_ok passed
  exact Check.list_eq_ok passed

end SealedFields
