import Mathlib.Data.List.Dedup
import Mathlib.Data.List.Forall2
import Mathlib.Data.List.Nodup
import SealedFields.Value.Basic

/-!
# Entries as finite maps

What the operations on entries do to the map that `get?` reads off them.
-/

namespace SealedFields.Entries

variable {κ α : Type} [DecidableEq κ]

/-! ## 1. Single operations -/

theorem get?_put (key other : κ) (v : α) (es : List (κ × α)) :
    get? (put key v es) other = if other = key then some v else get? es other := by
  by_cases h : other = key
  · rw [if_pos h, h, get?_put_self]
  · rw [if_neg h, get?_put_of_ne h]

theorem get?_erase (key other : κ) (es : List (κ × α)) :
    get? (erase es key) other = if other = key then none else get? es other := by
  induction es with
  | nil => simp [erase, get?_nil]
  | cons e es ih =>
    have step : erase (e :: es) key = if e.1 = key then erase es key else e :: erase es key := by
      by_cases h : e.1 = key <;> simp [erase, h]
    rw [step, get?_cons]
    by_cases h : e.1 = key
    · rw [if_pos h, ih]
      by_cases k : other = key
      · rw [if_pos k, if_pos k]
      · rw [if_neg k, if_neg k, if_neg (fun he => k (he.symm.trans h))]
    · rw [if_neg h, get?_cons, ih]
      by_cases k : other = key
      · rw [if_pos k, if_neg (fun he => h (he.trans k)), if_pos k]
      · rw [if_neg k, if_neg k]

theorem get?_erase_self (key : κ) (es : List (κ × α)) : get? (erase es key) key = none := by
  rw [get?_erase, if_pos rfl]

theorem get?_of_get?_erase {key other : κ} {v : α} {es : List (κ × α)} (h : get? (erase es key) other = some v) :
    get? es other = some v := by
  rw [get?_erase] at h
  split at h
  case isTrue => cases h
  case isFalse => exact h

theorem has_eq_isSome (es : List (κ × α)) (key : κ) : has es key = (get? es key).isSome := by
  induction es with
  | nil => rfl
  | cons e es ih =>
    rw [get?_cons]
    have step : has (e :: es) key = (decide (e.1 = key) || has es key) := rfl
    rw [step, ih]
    by_cases h : e.1 = key <;> simp [h]

theorem mem_of_get? {es : List (κ × α)} {key : κ} {v : α} (h : get? es key = some v) :
    (key, v) ∈ es := by
  induction es with
  | nil => simp [get?_nil] at h
  | cons e es ih =>
    rw [get?_cons] at h
    split at h
    case isTrue he =>
      have hv : e.2 = v := Option.some.inj h
      rw [← he, ← hv]
      exact List.mem_cons_self
    case isFalse => exact List.mem_cons_of_mem e (ih h)

theorem get?_isSome_iff {es : List (κ × α)} {key : κ} :
    (get? es key).isSome ↔ key ∈ es.map (·.1) := by
  rw [← has_eq_isSome]
  simp [has]

theorem mem_keys_iff {es : List (κ × α)} {key : κ} :
    key ∈ es.map (·.1) ↔ ∃ v, get? es key = some v := by
  rw [← get?_isSome_iff, Option.isSome_iff_exists]

/-! ## 2. Writes one after the other -/

theorem get?_merge (base newer : List (κ × α)) (key : κ) :
    get? (merge base newer) key = (get? newer.reverse key).or (get? base key) := by
  -- Induction on the later writes, of which the last one is looked at first.
  induction newer generalizing base with
  | nil => simp [merge, get?_nil]
  | cons e newer ih =>
    have step : merge base (e :: newer) = merge (put e.1 e.2 base) newer := rfl
    have last : get? (newer.reverse ++ [e]) key = (get? newer.reverse key).or (get? [e] key) := by
      simp [get?, List.find?_append, Option.map_or]
    rw [step, ih, List.reverse_cons, last, get?_put, get?_cons, get?_nil]
    cases get? newer.reverse key with
    | some v => rfl
    | none =>
      by_cases h : key = e.1
      · simp [h]
      · simp [h, Ne.symm h]

theorem mem_keys_merge_iff {base newer : List (κ × α)} {key : κ} :
    key ∈ (merge base newer).map (·.1) ↔ key ∈ base.map (·.1) ∨ key ∈ newer.map (·.1) := by
  rw [← get?_isSome_iff, get?_merge, Option.isSome_or, Bool.or_eq_true, get?_isSome_iff, get?_isSome_iff,
    List.map_reverse, List.mem_reverse, or_comm]

/-- Writes that agree on every key can be looked up in any order. -/
theorem get?_ofWrites {es : List (κ × α)} {key : κ} {v : α} (h : (key, v) ∈ es)
    (agree : ∀ w, (key, w) ∈ es → w = v) : get? (ofWrites es) key = some v := by
  -- Some write under the key is there, and all of them agree with this one.
  have found : (get? es.reverse key).isSome := by
    rw [get?_isSome_iff, List.map_reverse, List.mem_reverse]
    exact List.mem_map_of_mem h
  obtain ⟨w, hw⟩ := Option.isSome_iff_exists.1 found
  have mem : (key, w) ∈ es := List.mem_reverse.1 (mem_of_get? hw)
  rw [ofWrites, get?_merge, hw, agree w mem]
  rfl

/-! ## 3. One entry for each key -/

theorem find?_of_mem {f : α → κ} {l : List α} (nodup : (l.map f).Nodup) {a : α} (ha : a ∈ l) :
    l.find? (f · = f a) = some a := by
  cases h : l.find? (f · = f a) with
  | none => exact absurd (List.find?_eq_none.1 h a ha) (by simp)
  | some b =>
    have same : f b = f a := by simpa using List.find?_some h
    rw [List.inj_on_of_nodup_map nodup (List.mem_of_find?_eq_some h) ha same]

/-- Writing brings in what is written, and keeps the entries of other keys. -/
theorem mem_put {es : List (κ × α)} (nodup : (es.map (·.1)).Nodup) {key : κ} {v : α} {e : κ × α}
    (h : e ∈ put key v es) : e = (key, v) ∨ e.1 ≠ key ∧ e ∈ es := by
  induction es with
  | nil => exact .inl (List.mem_singleton.1 h)
  | cons e' es ih =>
    -- The key of the head does not occur again, so that only the head can be overwritten.
    obtain ⟨away, nodup⟩ := List.nodup_cons.1 nodup
    rw [put] at h
    split at h
    case isTrue same =>
      rcases List.mem_cons.1 h with rfl | h
      · exact .inl rfl
      · refine .inr ⟨fun he => away ?_, List.mem_cons_of_mem e' h⟩
        exact List.mem_map.2 ⟨e, h, he.trans same.symm⟩
    case isFalse other =>
      rcases List.mem_cons.1 h with rfl | h
      · exact .inr ⟨other, List.mem_cons_self⟩
      · rcases ih nodup h with rfl | ⟨hne, he⟩
        · exact .inl rfl
        · exact .inr ⟨hne, List.mem_cons_of_mem e' he⟩

theorem map_fst_put (key : κ) (v : α) (es : List (κ × α)) :
    (put key v es).map (·.1) = if key ∈ es.map (·.1) then es.map (·.1) else es.map (·.1) ++ [key] := by
  induction es with
  | nil => simp [put]
  | cons e es ih =>
    rw [put]
    by_cases h : e.1 = key
    · simp [h]
    · rw [if_neg h, List.map_cons, ih, List.map_cons]
      by_cases hk : key ∈ es.map (·.1)
      · rw [if_pos hk, if_pos (List.mem_cons_of_mem _ hk)]
      · rw [if_neg hk, if_neg (by simp [Ne.symm h] at hk ⊢; exact hk)]
        rfl

theorem nodup_put {es : List (κ × α)} (nodup : (es.map (·.1)).Nodup) (key : κ) (v : α) :
    ((put key v es).map (·.1)).Nodup := by
  rw [map_fst_put]
  split
  case isTrue => exact nodup
  case isFalse fresh =>
    refine List.nodup_append.2 ⟨nodup, by simp, fun a ha b hb he => ?_⟩
    rw [List.mem_singleton.1 hb] at he
    exact fresh (he ▸ ha)

theorem nodup_merge {base : List (κ × α)} (nodup : (base.map (·.1)).Nodup) (newer : List (κ × α)) :
    ((merge base newer).map (·.1)).Nodup := by
  induction newer generalizing base with
  | nil => exact nodup
  | cons e newer ih => exact ih (nodup_put nodup e.1 e.2)

theorem put_of_notMem {key : κ} {es : List (κ × α)} (fresh : key ∉ es.map (·.1)) (v : α) :
    put key v es = es ++ [(key, v)] := by
  induction es with
  | nil => rfl
  | cons e es ih =>
    rw [List.map_cons, List.mem_cons, not_or] at fresh
    rw [put, if_neg (Ne.symm fresh.1), ih fresh.2]
    rfl

theorem merge_of_nodup {base newer : List (κ × α)} (nodup : ((base ++ newer).map (·.1)).Nodup) :
    merge base newer = base ++ newer := by
  induction newer generalizing base with
  | nil => exact (List.append_nil base).symm
  | cons e newer ih =>
    -- The next key is new, so that its entry goes to the end.
    have fresh : e.1 ∉ base.map (·.1) := by
      rw [List.map_append, List.nodup_append] at nodup
      exact fun mem => nodup.2.2 _ mem _ List.mem_cons_self rfl
    have step : merge base (e :: newer) = merge (put e.1 e.2 base) newer := rfl
    rw [List.append_cons] at nodup
    rw [step, put_of_notMem fresh, ih nodup, ← List.append_cons]

/-- Of the writes under one key a single entry is left. -/
theorem length_ofWrites (es : List (κ × α)) : (ofWrites es).length = (es.map (·.1)).dedup.length := by
  have empty : (([] : List (κ × α)).map (·.1)).Nodup := List.nodup_nil
  have nodup : ((ofWrites es).map (·.1)).Nodup := nodup_merge empty es
  have same : ((ofWrites es).map (·.1)).Perm (es.map (·.1)).dedup := by
    refine (List.perm_ext_iff_of_nodup nodup (List.nodup_dedup _)).2 fun key => ?_
    rw [List.mem_dedup, ofWrites, mem_keys_merge_iff]
    simp
  rw [← same.length_eq, List.length_map]

/-- No write is lost exactly if the keys are distinct. -/
theorem length_ofWrites_eq_iff {es : List (κ × α)} :
    (ofWrites es).length = es.length ↔ (es.map (·.1)).Nodup := by
  rw [length_ofWrites]
  constructor
  · intro same
    have all : (es.map (·.1)).dedup = es.map (·.1) :=
      (List.dedup_sublist _).eq_of_length (same.trans (List.length_map _).symm)
    rw [← all]
    exact List.nodup_dedup _
  · intro nodup
    rw [nodup.dedup, List.length_map]

/-- Entries of distinct keys are what is left of writing them. -/
theorem ofWrites_of_nodup {es : List (κ × α)} (nodup : (es.map (·.1)).Nodup) : ofWrites es = es := by
  rw [ofWrites, merge_of_nodup nodup, List.nil_append]

theorem get?_of_mem {es : List (κ × α)} (nodup : (es.map (·.1)).Nodup) {key : κ} {v : α} (h : (key, v) ∈ es) :
    get? es key = some v := by
  unfold get?
  rw [find?_of_mem nodup h]
  rfl

/-- With one entry for each key, dropping entries drops what is found under their keys. -/
theorem get?_filter {es : List (κ × α)} (nodup : (es.map (·.1)).Nodup) (p : α → Bool) (key : κ) :
    get? (es.filter fun e => p e.2) key = (get? es key).filter p := by
  induction es with
  | nil => rfl
  | cons e es ih =>
    obtain ⟨away, nodup⟩ := List.nodup_cons.1 nodup
    rw [get?_cons, List.filter_cons]
    by_cases h : e.1 = key
    · -- The key of the head does not occur again.
      have gone : get? es key = none := by
        rw [← Option.not_isSome_iff_eq_none, get?_isSome_iff, ← h]
        exact away
      rw [if_pos h]
      cases hp : p e.2 with
      | true => simp [Option.filter, hp, get?_cons, h]
      | false => simp [Option.filter, hp, ih nodup, gone]
    · rw [if_neg h]
      cases hp : p e.2 with
      | true => simp [get?_cons, h, ih nodup]
      | false => simp [ih nodup]

omit [DecidableEq κ] in
theorem nodup_filter {es : List (κ × α)} (nodup : (es.map (·.1)).Nodup) (p : κ × α → Bool) :
    ((es.filter p).map (·.1)).Nodup :=
  nodup.sublist (List.filter_sublist.map _)

end SealedFields.Entries
