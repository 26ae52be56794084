import SealedFields.Proofs.Ciphertext.Boundaries
import SealedFields.Proofs.Ciphertext.Packing

/-!
# Unpacking inverts packing

A buffer is unpacked exactly if it is a sequence of whole records, each a value behind its length in four
bytes. It is then the one buffer into which its values are packed.
-/

namespace SealedFields

/-! ## 1. Numbers of a fixed width -/

namespace Bytes

theorem toNat_lt (bs : Bytes) : toNat bs < Nat.pow 256 bs.length := by
  induction bs using List.reverseRecOn with
  | nil => decide
  | append_singleton bs b ih =>
    have power : Nat.pow 256 (bs.length + 1) = Nat.pow 256 bs.length * 256 := rfl
    have byte := b.toNat_lt
    rw [toNat_concat, List.length_append, List.length_singleton, power]
    omega

/-- The bytes of a number are the ones it was read from. -/
theorem bigEndian_toNat (bs : Bytes) : bigEndian bs.length (toNat bs) = bs := by
  induction bs using List.reverseRecOn with
  | nil => rfl
  | append_singleton bs b ih =>
    have byte := b.toNat_lt
    have high : (toNat bs * 256 + b.toNat) / 256 = toNat bs := by omega
    have low : (toNat bs * 256 + b.toNat) % 256 = b.toNat := by omega
    have last : bigEndian (bs.length + 1) (toNat bs * 256 + b.toNat)
        = bigEndian bs.length (toNat bs) ++ [UInt8.ofNat b.toNat] := by
      show (littleEndian (bs.length + 1) _).reverse = _
      rw [littleEndian, high, low, List.reverse_cons]
      rfl
    rw [List.length_append, List.length_singleton, toNat_concat, last, ih, UInt8.ofNat_toNat]

end Bytes

/-! ## 2. Records -/

namespace Packing

variable {value rest packed : Bytes} {values : List Bytes}

/-- A value behind its length in four bytes, most significant first. -/
def IsRecord (bytes : Bytes) : Prop :=
  ∃ front value, bytes = front ++ value ∧ front.length = lengthBytes ∧ Bytes.toNat front = value.length

theorem record_of_front {front : Bytes} (four : front.length = lengthBytes)
    (declares : Bytes.toNat front = value.length) : record value = front ++ value := by
  have front_eq : Bytes.bigEndian lengthBytes value.length = front := by
    rw [← declares, ← four, Bytes.bigEndian_toNat]
  rw [record, front_eq]

theorem length_le_of_front {front : Bytes} (four : front.length = lengthBytes)
    (declares : Bytes.toNat front = value.length) : value.length ≤ maxLength := by
  have bound : Nat.pow 256 lengthBytes = maxLength + 1 := by decide
  have below := Bytes.toNat_lt front
  rw [four, bound] at below
  omega

theorem isRecord_iff {bytes : Bytes} : IsRecord bytes ↔ ∃ value, value.length ≤ maxLength ∧ bytes = record value := by
  constructor
  · rintro ⟨front, value, rfl, four, declares⟩
    exact ⟨value, length_le_of_front four declares, (record_of_front four declares).symm⟩
  · rintro ⟨value, fits, rfl⟩
    have bound : maxLength < Nat.pow 256 lengthBytes := by decide
    refine ⟨_, value, rfl, Bytes.length_bigEndian _ _, Bytes.toNat_bigEndian ?_⟩
    omega

/-- Sequences of records are what values are packed into. -/
theorem records_iff : (∃ records : List Bytes, (∀ r ∈ records, IsRecord r) ∧ packed = records.flatten) ↔
    ∃ values : List Bytes, (∀ value ∈ values, value.length ≤ maxLength) ∧ packed = pack values := by
  constructor
  · rintro ⟨records, each, rfl⟩
    induction records with
    | nil => exact ⟨[], by simp, rfl⟩
    | cons r records ih =>
      rw [List.forall_mem_cons] at each
      obtain ⟨value, fits, rfl⟩ := isRecord_iff.1 each.1
      obtain ⟨values, more, packed⟩ := ih each.2
      refine ⟨value :: values, List.forall_mem_cons.2 ⟨fits, more⟩, ?_⟩
      rw [List.flatten_cons, packed]
      rfl
  · rintro ⟨values, each, rfl⟩
    refine ⟨values.map record, ?_, List.flatMap_def⟩
    intro r member
    obtain ⟨value, mem, rfl⟩ := List.mem_map.1 member
    exact isRecord_iff.2 ⟨value, each value mem, rfl⟩

/-! ## 3. What is unpacked -/

theorem packAll_eq_ok_iff : packAll values = .ok packed ↔
    packed = pack values ∧ ∀ value ∈ values, value.length ≤ maxLength := by
  refine ⟨packAll_eq_ok, ?_⟩
  rintro ⟨rfl, fits⟩
  have none : ¬ (values.any (maxLength < ·.length)) = true := by
    rw [List.any_eq_true]
    rintro ⟨value, mem, long⟩
    have short := fits value mem
    rw [decide_eq_true_iff] at long
    omega
  exact if_neg none

/-- Only a sequence of records is unpacked, and into the values of its records. -/
theorem unpackFrom_eq_ok (offset : Nat) (rest : Bytes) : ∀ values, unpackFrom offset rest = .ok values →
    rest = pack values ∧ ∀ value ∈ values, value.length ≤ maxLength := by
  -- Induction along the reader: it has read the first record, and the rest is packed by hypothesis.
  induction offset, rest using unpackFrom.induct with
  | case1 offset rest done =>
    intro values h
    rw [unpackFrom, if_pos done] at h
    obtain rfl := Except.ok.inj h
    exact ⟨List.isEmpty_iff.1 done, by simp⟩
  | case2 offset rest more short =>
    intro values h
    rw [unpackFrom, if_neg more, dif_pos short] at h
    cases h
  | case3 offset rest more long declared body cut =>
    intro values h
    rw [unpackFrom, if_neg more, dif_neg long, if_pos cut] at h
    cases h
  | case4 offset rest more long declared body whole ih =>
    intro values h
    rw [unpackFrom, if_neg more, dif_neg long, if_neg whole] at h
    obtain ⟨others, read, h⟩ := Outcome.bind_eq_ok_iff.1 h
    obtain rfl := Except.ok.inj h
    obtain ⟨packed, fits⟩ := ih others read
    have four : (rest.take lengthBytes).length = lengthBytes := by
      rw [List.length_take]
      omega
    have declares : Bytes.toNat (rest.take lengthBytes) = (body.take declared).length := by
      rw [List.length_take]
      show declared = min declared body.length
      omega
    refine ⟨?_, List.forall_mem_cons.2 ⟨length_le_of_front four declares, fits⟩⟩
    calc rest = rest.take lengthBytes ++ (body.take declared ++ body.drop declared) := by
          rw [List.take_append_drop, List.take_append_drop]
      _ = record (body.take declared) ++ pack others := by
          rw [record_of_front four declares, packed, List.append_assoc]
      _ = pack (body.take declared :: others) := rfl

theorem unpack_eq_ok_iff : unpack packed = .ok values ↔ packAll values = .ok packed := by
  rw [packAll_eq_ok_iff]
  constructor
  · exact unpackFrom_eq_ok 0 packed values
  · rintro ⟨rfl, fits⟩
    exact unpackFrom_pack 0 fits

/-- A buffer is refused exactly if it is no sequence of records. -/
theorem exists_unpack_eq_error_iff : (∃ e, unpack packed = .error e) ↔
    ¬ ∃ records : List Bytes, (∀ r ∈ records, IsRecord r) ∧ packed = records.flatten := by
  rw [records_iff]
  constructor
  · rintro ⟨e, refused⟩ ⟨values, fits, packed_eq⟩
    have read : unpack packed = .ok values := unpack_eq_ok_iff.2 (packAll_eq_ok_iff.2 ⟨packed_eq, fits⟩)
    rw [read] at refused
    cases refused
  · intro none
    cases read : unpack packed with
    | error e => exact ⟨e, rfl⟩
    | ok values =>
      obtain ⟨packed_eq, fits⟩ := packAll_eq_ok_iff.1 (unpack_eq_ok_iff.1 read)
      exact absurd ⟨values, fits, packed_eq⟩ none

/-- Values that are short enough for their prefixes are packed, and come back. Any buffer is unpacked into the
values that it is packed from, or else it is refused as malformed; the latter happens exactly if it is no
sequence of records, each a value behind its length. -/
theorem unpack_inverts_pack :
    (∀ values : List Bytes, (∀ value ∈ values, value.length < 2 ^ 32) →
      ∃ packed, packAll values = .ok packed ∧ unpack packed = .ok values) ∧
    ∀ packed : Bytes,
      ((∃ values, unpack packed = .ok values ∧ packAll values = .ok packed) ∨
        ∃ reason, unpack packed = .error (.malformedCiphertext reason (some "packed"))) ∧
      ((∃ e, unpack packed = .error e) ↔
        ¬ ∃ records : List Bytes, (∀ r ∈ records, IsRecord r) ∧ packed = records.flatten) := by
  refine ⟨fun values short => ?_, fun packed => ⟨?_, exists_unpack_eq_error_iff⟩⟩
  · have bound : maxLength + 1 = 2 ^ 32 := by decide
    have fits : ∀ value ∈ values, value.length ≤ maxLength := by
      intro value mem
      have below := short value mem
      omega
    have packed : packAll values = .ok (pack values) := packAll_eq_ok_iff.2 ⟨rfl, fits⟩
    exact ⟨pack values, packed, unpack_eq_ok_iff.2 packed⟩
  · cases read : unpack packed with
    | ok values => exact .inl ⟨values, rfl, unpack_eq_ok_iff.1 read⟩
    | error e =>
      obtain ⟨reason, rfl⟩ := failsOnly_unpack packed e read
      exact .inr ⟨reason, rfl⟩

/-- Three values, one of them empty. -/
theorem unpack_inverts_pack_three : (∀ value ∈ ([[7], [], [1, 2]] : List Bytes), value.length < 2 ^ 32) ∧
    ∃ packed, packAll [[7], [], [1, 2]] = .ok packed ∧ unpack packed = .ok [[7], [], [1, 2]] := by
  have short : ∀ value ∈ ([[7], [], [1, 2]] : List Bytes), value.length < 2 ^ 32 := by decide
  exact ⟨short, unpack_inverts_pack.1 _ short⟩

end Packing

end SealedFields
