import SealedFields.Proofs.Entries
import SealedFields.Schema.Scalars

/-!
# Checks that pass

A record passes its check exactly when each of its parts does.
-/

namespace SealedFields

namespace Checked

variable {α β : Type} {f : α → β} {g : Checked (α → β)} {c : Checked α} {a : α} {b : β}

theorem map_eq_ok_iff : f <$> c = .ok b ↔ ∃ a, c = .ok a ∧ b = f a := by
  constructor
  · intro h
    cases c with
    | ok a => exact ⟨a, rfl, (Checked.ok.inj h).symm⟩
    | bad places => cases h
    | stopped e => cases h
  · rintro ⟨a, rfl, rfl⟩
    rfl

theorem seq_eq_ok_iff : g <*> c = .ok b ↔ ∃ f a, g = .ok f ∧ c = .ok a ∧ b = f a := by
  constructor
  · intro h
    cases g with
    | ok f =>
      cases c with
      | ok a => exact ⟨f, a, rfl, rfl, (Checked.ok.inj h).symm⟩
      | bad places => cases h
      | stopped e => cases h
    | bad places => cases c <;> cases h
    | stopped e => cases h
  · rintro ⟨f, a, rfl, rfl, rfl⟩
    rfl

theorem under_eq_ok_iff {name : Text} : c.under name = .ok a ↔ c = .ok a := by
  cases c with
  | ok b => exact Iff.rfl
  | bad places => exact ⟨(nomatch ·), (nomatch ·)⟩
  | stopped e => exact ⟨(nomatch ·), (nomatch ·)⟩

theorem andThen_eq_ok_iff {f : α → Checked β} : c.andThen f = .ok b ↔ ∃ a, c = .ok a ∧ f a = .ok b := by
  cases c with
  | ok a => exact ⟨fun h => ⟨a, rfl, h⟩, fun ⟨_, h, next⟩ => (Checked.ok.inj h) ▸ next⟩
  | bad places => exact ⟨(nomatch ·), fun ⟨_, h, _⟩ => nomatch h⟩
  | stopped e => exact ⟨(nomatch ·), fun ⟨_, h, _⟩ => nomatch h⟩

theorem toExcept_eq_ok_iff : c.toExcept = .ok a ↔ c = .ok a := by
  cases c with
  | ok b => exact ⟨fun h => congrArg _ (Except.ok.inj h), fun h => congrArg _ (Checked.ok.inj h)⟩
  | bad places => exact ⟨(nomatch ·), (nomatch ·)⟩
  | stopped e => exact ⟨(nomatch ·), (nomatch ·)⟩

end Checked

namespace Check

variable {α : Type} {es : Entries} {name : Text} {check : Check α} {default a : α} {v : Value}

theorem required_of_ok (found : Entries.get? es name = some v) (passes : check v = .ok a) :
    required es name check = .ok a := by
  unfold required
  rw [found]
  exact Checked.under_eq_ok_iff.2 passes

theorem optional_of_ok (found : Entries.get? es name = some v) (passes : check v = .ok a) :
    optional es name default check = .ok a := by
  unfold optional
  rw [found]
  exact Checked.under_eq_ok_iff.2 passes

theorem required_eq_ok (h : required es name check = .ok a) :
    ∃ v, Entries.get? es name = some v ∧ check v = .ok a := by
  unfold required at h
  split at h
  case h_1 v found => exact ⟨v, found, Checked.under_eq_ok_iff.1 h⟩
  case h_2 => cases h

/-- A part that may be left out has its default, or passed its check. -/
theorem optional_eq_ok (h : optional es name default check = .ok a) :
    a = default ∨ ∃ v, check v = .ok a := by
  unfold optional at h
  split at h
  case h_1 v _ => exact .inr ⟨v, Checked.under_eq_ok_iff.1 h⟩
  case h_2 => exact .inl (Checked.ok.inj h).symm

theorem nullable_eq_ok {a : Option α} (h : nullable check v = .ok a) :
    a = none ∨ ∃ b, a = some b ∧ check v = .ok b := by
  unfold nullable at h
  split at h
  case h_1 => exact .inl (Checked.ok.inj h).symm
  case h_2 v _ =>
    obtain ⟨b, hb, rfl⟩ := Checked.map_eq_ok_iff.1 h
    exact .inr ⟨b, rfl, hb⟩

theorem nullable_ofOption {f : α → Value} (passes : ∀ a, f a ≠ .null ∧ check (f a) = .ok a) (o : Option α) :
    nullable check (.ofOption f o) = .ok o := by
  cases o with
  | none => rfl
  | some a =>
    obtain ⟨there, passes⟩ := passes a
    show nullable check (f a) = .ok (some a)
    unfold nullable
    split
    case h_1 absent => exact (there absent).elim
    case h_2 =>
      rw [passes]
      rfl

theorem record_eq_ok {parts : Entries → Checked α} (h : record parts v = .ok a) :
    ∃ es, v = .dict es ∧ parts es = .ok a := by
  unfold record at h
  split at h
  case h_1 es => exact ⟨es, rfl, h⟩
  case h_2 => cases h

/-- The items of a list that passes have passed. -/
theorem itemsFrom_eq_ok {vs : List Value} {as : List α} {i : Nat} (h : itemsFrom check i vs = .ok as) :
    ∀ a ∈ as, ∃ v, check v = .ok a := by
  -- Induction on the items; the index only names where an item is wrong.
  induction vs generalizing i as with
  | nil =>
    obtain rfl := Checked.ok.inj h
    exact fun a member => (List.not_mem_nil member).elim
  | cons v vs ih =>
    obtain ⟨f, rest, first, others, rfl⟩ := Checked.seq_eq_ok_iff.1 h
    obtain ⟨b, passed, rfl⟩ := Checked.map_eq_ok_iff.1 first
    intro a member
    rcases List.mem_cons.1 member with rfl | member
    · exact ⟨v, Checked.under_eq_ok_iff.1 passed⟩
    · exact ih others a member

theorem itemsFrom_of_ok {f : α → Value} (passes : ∀ a, check (f a) = .ok a) (as : List α) (i : Nat) :
    itemsFrom check i (as.map f) = .ok as := by
  induction as generalizing i with
  | nil => rfl
  | cons a as ih =>
    rw [List.map_cons, itemsFrom, passes, ih]
    rfl

theorem list_of_ok {f : α → Value} (passes : ∀ a, check (f a) = .ok a) (as : List α) :
    list check (.list (as.map f)) = .ok as := itemsFrom_of_ok passes as 0

theorem list_eq_ok {as : List α} (h : list check v = .ok as) : ∀ a ∈ as, ∃ v, check v = .ok a := by
  unfold list at h
  split at h
  case h_1 => exact itemsFrom_eq_ok h
  case h_2 => cases h

theorem scheme_tag (s : Scheme) : scheme (.text s.tag) = .ok s := by
  cases s <;> rfl

theorem securityLevel_eq_ok {level : Int} (h : securityLevel v = .ok level) :
    securityLevels.contains level = true := by
  unfold securityLevel Checked.andThen at h
  split at h
  case h_1 i _ =>
    dsimp only at h
    split at h
    case isTrue listed =>
      obtain rfl := Checked.ok.inj h
      exact listed
    case isFalse => cases h
  case h_2 => cases h
  case h_3 => cases h

theorem securityLevel_int {level : Int} (listed : securityLevels.contains level = true) :
    securityLevel (.int level) = .ok level := if_pos listed

theorem floatFrom_of_ge {least x : Float} (h : x ≥ least) : floatFrom least (.float x) = .ok x := by
  show (if x ≥ least then Checked.ok x else Checked.wrong) = Checked.ok x
  exact if_pos h

theorem floatFrom_eq_ok {least x : Float} (h : floatFrom least v = .ok x) : x ≥ least := by
  obtain ⟨y, -, h⟩ := Checked.andThen_eq_ok_iff.1 h
  split at h
  case isTrue enough =>
    obtain rfl := Checked.ok.inj h
    exact enough
  case isFalse => cases h

theorem intFrom_eq_ok {least i : Int} (h : intFrom least v = .ok i) : least ≤ i := by
  obtain ⟨j, -, h⟩ := Checked.andThen_eq_ok_iff.1 h
  split at h
  case isTrue enough =>
    obtain rfl := Checked.ok.inj h
    exact enough
  case isFalse => cases h

end Check

/-! ## Checks that are not stopped -/

namespace Checked

variable {α β : Type}

/-- The check is not stopped: it passes, or it says which places are wrong. -/
def Completes (c : Checked α) : Prop := ∀ f, c ≠ .stopped f

theorem completes_ok (a : α) : Completes (.ok a) := fun _ => nofun

theorem completes_wrong : Completes (.wrong : Checked α) := fun _ => nofun

theorem completes_ofOption? (o : Option α) : Completes (.ofOption? o) := by
  cases o with
  | none => exact completes_wrong
  | some a => exact completes_ok a

theorem Completes.map {c : Checked α} (h : Completes c) (f : α → β) : Completes (f <$> c) := by
  cases c with
  | ok a => exact completes_ok (f a)
  | bad places => exact fun _ => nofun
  | stopped e => exact absurd rfl (h e)

theorem Completes.seq {g : Checked (α → β)} {c : Checked α} (hg : Completes g) (hc : Completes c) :
    Completes (g <*> c) := by
  cases g with
  | stopped e => exact absurd rfl (hg e)
  | ok f =>
    cases c with
    | stopped e => exact absurd rfl (hc e)
    | ok a => exact completes_ok (f a)
    | bad places => exact fun _ => nofun
  | bad places =>
    cases c with
    | stopped e => exact absurd rfl (hc e)
    | ok a => exact fun _ => nofun
    | bad places' => exact fun _ => nofun

theorem Completes.andThen {c : Checked α} {f : α → Checked β} (h : Completes c) (next : ∀ a, Completes (f a)) :
    Completes (c.andThen f) := by
  cases c with
  | ok a => exact next a
  | bad places => exact fun _ => nofun
  | stopped e => exact absurd rfl (h e)

theorem Completes.under {c : Checked α} (h : Completes c) (name : Text) : Completes (c.under name) := by
  cases c with
  | ok a => exact completes_ok a
  | bad places => exact fun _ => nofun
  | stopped e => exact absurd rfl (h e)

theorem completes_guard {p : Prop} [Decidable p] (a : α) : Completes (if p then .ok a else .wrong) := by
  split
  case isTrue => exact completes_ok a
  case isFalse => exact completes_wrong

end Checked

namespace Check

open Checked (Completes)

variable {α : Type} {check : Check α}

theorem completes_required (h : ∀ v, Completes (check v)) (es : Entries) (name : Text) :
    Completes (required es name check) := by
  unfold required
  split
  case h_1 v _ => exact (h v).under name
  case h_2 => exact fun _ => nofun

theorem completes_optional (h : ∀ v, Completes (check v)) (es : Entries) (name : Text) (default : α) :
    Completes (optional es name default check) := by
  unfold optional
  split
  case h_1 v _ => exact (h v).under name
  case h_2 => exact Checked.completes_ok default

theorem completes_text (v : Value) : Completes (text v) := by
  unfold text
  split
  case h_1 t => exact Checked.completes_ok t
  case h_2 => exact Checked.completes_ofOption? _

theorem completes_int (v : Value) : Completes (int v) := by
  unfold int
  split
  case h_1 i => exact Checked.completes_ok i
  case h_2 b => exact Checked.completes_ok _
  case h_3 x =>
    dsimp only
    split
    case isTrue => exact Checked.completes_ofOption? _
    case isFalse => exact Checked.completes_wrong
  case h_4 => exact Checked.completes_ofOption? _

theorem completes_float (v : Value) : Completes (float v) := by
  unfold float
  split
  case h_1 x => exact Checked.completes_ok x
  case h_2 i => exact Checked.completes_ofOption? _
  case h_3 b => exact Checked.completes_ok _
  case h_4 => exact Checked.completes_ofOption? _

theorem completes_bool (v : Value) : Completes (bool v) := by
  unfold bool
  split
  case h_1 b => exact Checked.completes_ok b
  case h_2 i =>
    split
    case isTrue => exact Checked.completes_ok false
    case isFalse => exact Checked.completes_guard true
  case h_3 x =>
    split
    case isTrue => exact Checked.completes_ok false
    case isFalse => exact Checked.completes_guard true
  case h_4 => exact Checked.completes_ofOption? _

theorem completes_intFrom (least : Int) (v : Value) : Completes (intFrom least v) :=
  (completes_int v).andThen fun i => Checked.completes_guard i

theorem completes_floatFrom (least : Float) (v : Value) : Completes (floatFrom least v) :=
  (completes_float v).andThen fun x => Checked.completes_guard x

end Check

end SealedFields
