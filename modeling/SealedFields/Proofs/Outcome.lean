import Mathlib.Data.List.Forall2
import SealedFields.Failure

/-!
# Computations that may fail

When a sequence of steps, each of which may fail, has a result.
-/

namespace SealedFields.Outcome

variable {ε ε' α β : Type}

theorem bind_eq_ok_iff {x : Except ε α} {f : α → Except ε β} {b : β} :
    (x >>= f) = .ok b ↔ ∃ a, x = .ok a ∧ f a = .ok b := by
  cases x with
  | error e => simp [bind, Except.bind]
  | ok a => simp [bind, Except.bind]

theorem bind_eq_error_iff {x : Except ε α} {f : α → Except ε β} {e : ε} :
    (x >>= f) = .error e ↔ x = .error e ∨ ∃ a, x = .ok a ∧ f a = .error e := by
  cases x with
  | error e' => simp [bind, Except.bind]
  | ok a => simp [bind, Except.bind]

theorem map_eq_ok_iff {x : Except ε α} {f : α → β} {b : β} :
    x.map f = .ok b ↔ ∃ a, x = .ok a ∧ b = f a := by
  cases x with
  | error e => simp [Except.map]
  | ok a => simp [Except.map, eq_comm]

theorem mapError_eq_ok_iff {x : Except ε α} {f : ε → ε'} {a : α} :
    x.mapError f = .ok a ↔ x = .ok a := by
  cases x with
  | error e => simp [Except.mapError]
  | ok a => simp [Except.mapError]

theorem mapError_eq_error_iff {x : Except ε α} {f : ε → ε'} {e : ε'} :
    x.mapError f = .error e ↔ ∃ e', x = .error e' ∧ e = f e' := by
  cases x with
  | error e' => simp [Except.mapError, eq_comm]
  | ok a => simp [Except.mapError]

theorem toOption_eq_some_iff {x : Except ε α} {a : α} : x.toOption = some a ↔ x = .ok a := by
  cases x with
  | error e => simp [Except.toOption]
  | ok a => simp [Except.toOption]

theorem forM_eq_ok_iff {f : α → Except ε Unit} {l : List α} :
    l.forM f = .ok () ↔ ∀ a ∈ l, f a = .ok () := by
  induction l with
  | nil => simp [pure, Except.pure]
  | cons a l ih =>
    rw [List.forM_eq_forM] at ih
    rw [List.forM_eq_forM, List.forM_cons, bind_eq_ok_iff, List.forall_mem_cons, ih]
    constructor
    · rintro ⟨⟨⟩, ha, hl⟩
      exact ⟨ha, hl⟩
    · rintro ⟨ha, hl⟩
      exact ⟨(), ha, hl⟩

/-- What the start of a loop satisfies and every step preserves, the end satisfies. -/
theorem foldlM_preserves {f : β → α → Except ε β} {P : β → Prop} {l : List α} {b r : β}
    (h : l.foldlM f b = .ok r) (start : P b) (step : ∀ b, ∀ a ∈ l, ∀ c, P b → f b a = .ok c → P c) : P r := by
  induction l generalizing b with
  | nil =>
    obtain rfl := Except.ok.inj h
    exact start
  | cons a l ih =>
    rw [List.foldlM_cons] at h
    obtain ⟨c, here, h⟩ := bind_eq_ok_iff.1 h
    refine ih h (step b a List.mem_cons_self c start here) fun b' a' member => ?_
    exact step b' a' (List.mem_cons_of_mem a member)

theorem forall₂_imp_of_mem {R S : α → β → Prop} {l : List α} {r : List β} (h : List.Forall₂ R l r)
    (imp : ∀ a, ∀ b ∈ r, R a b → S a b) : List.Forall₂ S l r := by
  induction h with
  | nil => exact .nil
  | @cons a b l r hab _ ih =>
    refine .cons (imp a b List.mem_cons_self hab) (ih fun a' b' hb' => ?_)
    exact imp a' b' (List.mem_cons_of_mem b hb')

theorem exists_mem_zip {R : α → β → Prop} {l : List α} {r : List β} (h : List.Forall₂ R l r) {a : α}
    (ha : a ∈ l) : ∃ b, (a, b) ∈ l.zip r ∧ R a b := by
  induction h with
  | nil => exact absurd ha List.not_mem_nil
  | @cons a' b l r hab _ ih =>
    rcases List.mem_cons.1 ha with rfl | ha
    · exact ⟨b, List.mem_cons_self, hab⟩
    · obtain ⟨b', hb', hR⟩ := ih ha
      exact ⟨b', List.mem_cons_of_mem _ hb', hR⟩

theorem exists_of_mem_left {R : α → β → Prop} {l : List α} {r : List β} (h : List.Forall₂ R l r) {a : α}
    (ha : a ∈ l) : ∃ b ∈ r, R a b := by
  obtain ⟨b, hb, hR⟩ := exists_mem_zip h ha
  exact ⟨b, (List.of_mem_zip hb).2, hR⟩

theorem exists_of_mem_right {R : α → β → Prop} {l : List α} {r : List β} (h : List.Forall₂ R l r)
    {b : β} (hb : b ∈ r) : ∃ a ∈ l, R a b :=
  exists_of_mem_left h.flip hb

theorem exists_getElem?_left {R : α → β → Prop} {l : List α} {r : List β} (h : List.Forall₂ R l r) {i : Nat}
    {b : β} (hb : r[i]? = some b) : ∃ a, l[i]? = some a ∧ R a b := by
  induction h generalizing i with
  | nil => cases hb
  | @cons a b' l r hab _ ih =>
    cases i with
    | zero =>
      obtain rfl := Option.some.inj hb
      exact ⟨a, rfl, hab⟩
    | succ i => exact ih hb

theorem exists_forall₂ {R : α → β → Prop} {l : List α} (h : ∀ a ∈ l, ∃ b, R a b) :
    ∃ r, List.Forall₂ R l r := by
  induction l with
  | nil => exact ⟨[], .nil⟩
  | cons a l ih =>
    rw [List.forall_mem_cons] at h
    obtain ⟨b, hb⟩ := h.1
    obtain ⟨r, hr⟩ := ih h.2
    exact ⟨b :: r, .cons hb hr⟩

/-- Items that are related through a third one each are related through a list. -/
theorem exists_forall₂_between {γ : Type} {R : α → γ → Prop} {S : β → γ → Prop} {l : List α} {r : List β}
    (h : List.Forall₂ (fun a b => ∃ m, R a m ∧ S b m) l r) :
    ∃ ms, List.Forall₂ R l ms ∧ List.Forall₂ S r ms := by
  induction h with
  | nil => exact ⟨[], .nil, .nil⟩
  | cons here _ ih =>
    obtain ⟨m, hR, hS⟩ := here
    obtain ⟨ms, left, right⟩ := ih
    exact ⟨m :: ms, .cons hR left, .cons hS right⟩

/-- Each item has its result. -/
theorem mapM_eq_ok_iff {f : α → Except ε β} {l : List α} {r : List β} :
    l.mapM f = .ok r ↔ List.Forall₂ (fun a b => f a = .ok b) l r := by
  induction l generalizing r with
  | nil =>
    rw [List.mapM_nil, List.forall₂_nil_left_iff]
    simp [pure, Except.pure, eq_comm]
  | cons a l ih =>
    rw [List.mapM_cons, bind_eq_ok_iff, List.forall₂_cons_left_iff]
    simp only [bind_eq_ok_iff, ih]
    constructor
    · rintro ⟨b, hb, bs, hbs, hr⟩
      exact ⟨b, bs, hb, hbs, (Except.ok.inj hr).symm⟩
    · rintro ⟨b, bs, hb, hbs, rfl⟩
      exact ⟨b, hb, bs, hbs, rfl⟩

/-- Results that are all there are the results of a list. -/
theorem mapM_id_eq_ok {rs : List (Except ε β)} {bs : List β} (h : rs.mapM id = .ok bs) : rs = bs.map .ok := by
  have each := mapM_eq_ok_iff.1 h
  induction each with
  | nil => rfl
  | @cons r b rs bs hr rest ih =>
    have hr : r = .ok b := hr
    rw [hr, List.map_cons, ih (mapM_eq_ok_iff.2 rest)]

theorem filterMap_toOption_ok (bs : List β) :
    (bs.map (Except.ok : β → Except ε β)).filterMap Except.toOption = bs := by
  rw [List.filterMap_map]
  exact List.filterMap_some

theorem mapM_eq_some_iff {f : α → Option β} {l : List α} {r : List β} :
    l.mapM f = some r ↔ List.Forall₂ (fun a b => f a = some b) l r := by
  induction l generalizing r with
  | nil =>
    rw [List.mapM_nil, List.forall₂_nil_left_iff]
    simp [pure, eq_comm]
  | cons a l ih =>
    rw [List.mapM_cons, List.forall₂_cons_left_iff, Option.bind_eq_bind, Option.bind_eq_some_iff]
    simp only [Option.bind_eq_bind, Option.bind_eq_some_iff, ih]
    constructor
    · rintro ⟨b, hb, bs, hbs, hr⟩
      exact ⟨b, bs, hb, hbs, (Option.some.inj hr).symm⟩
    · rintro ⟨b, bs, hb, hbs, rfl⟩
      exact ⟨b, hb, bs, hbs, rfl⟩

/-- Looking up every item and keeping it gives the items paired with what is found. -/
theorem mapM_pair_eq_some_iff {f : α → Option β} {l : List α} {r : List (α × β)} :
    (l.mapM fun a => (f a).map (a, ·)) = some r ↔
      ∃ bs, List.Forall₂ (fun a b => f a = some b) l bs ∧ r = l.zip bs := by
  rw [mapM_eq_some_iff]
  induction l generalizing r with
  | nil => simp [List.forall₂_nil_left_iff]
  | cons a l ih =>
    rw [List.forall₂_cons_left_iff]
    constructor
    · rintro ⟨p, r, hp, hr, rfl⟩
      obtain ⟨b, hb, rfl⟩ := Option.map_eq_some_iff.1 hp
      obtain ⟨bs, hbs, rfl⟩ := ih.1 hr
      exact ⟨b :: bs, .cons hb hbs, rfl⟩
    · rintro ⟨bs, hbs, rfl⟩
      obtain ⟨b, bs', hb, hbs', rfl⟩ := List.forall₂_cons_left_iff.1 hbs
      exact ⟨(a, b), l.zip bs', by rw [hb]; rfl, ih.2 ⟨bs', hbs', rfl⟩, rfl⟩

/-- A look-up of every item succeeds once each single one does. -/
theorem exists_mapM_eq_some {f : α → Option β} {l : List α} (h : ∀ a ∈ l, ∃ b, f a = some b) :
    ∃ r, l.mapM f = some r := by
  simp only [mapM_eq_some_iff]
  exact exists_forall₂ h

/-! ## Which failures there are -/

/-- Whatever the failure is, `P` holds of it. -/
def FailsOnly (P : ε → Prop) (x : Except ε α) : Prop := ∀ e, x = .error e → P e

variable {P : ε → Prop}

theorem FailsOnly.ok (a : α) : FailsOnly P (.ok a : Except ε α) := by
  intro e h
  cases h

theorem FailsOnly.bind {x : Except ε α} {f : α → Except ε β} (first : FailsOnly P x)
    (next : ∀ a, FailsOnly P (f a)) : FailsOnly P (x >>= f) := by
  intro e h
  rcases bind_eq_error_iff.1 h with h | ⟨a, -, h⟩
  · exact first e h
  · exact next a e h

theorem FailsOnly.foldlM {f : β → α → Except ε β} (step : ∀ b a, FailsOnly P (f b a)) (b : β) (l : List α) :
    FailsOnly P (l.foldlM f b) := by
  induction l generalizing b with
  | nil => exact .ok b
  | cons a l ih =>
    rw [List.foldlM_cons]
    exact (step b a).bind ih

theorem FailsOnly.mapError {Q : ε' → Prop} {x : Except ε α} {f : ε → ε'} (h : FailsOnly P x)
    (imp : ∀ e, P e → Q (f e)) : FailsOnly Q (x.mapError f) := by
  intro e' he'
  obtain ⟨e, he, rfl⟩ := mapError_eq_error_iff.1 he'
  exact imp e (h e he)

end SealedFields.Outcome
