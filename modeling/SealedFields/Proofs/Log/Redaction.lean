import SealedFields.Log.Format
import SealedFields.Proofs.Json.RoundTrip

/-!
# Which secrets stay out of a log

A secret is what is stored under a sensitive key, at any depth. The text of a record says nothing about
secrets as long as all of them lie where redaction looks: under a sensitive field of the record, or in a
dictionary there. It does not look into lists among the fields or inside other lists, nor at the context.
-/

namespace SealedFields.Log

variable {context context' : Entries} {e e' : Event} {u : Value}

/-! ## 1. Values that are equal except for secrets -/

mutual

/-- Values that are equal except for what is stored under sensitive keys. -/
inductive Alike : Value → Value → Prop
  | same (v : Value) : Alike v v
  | list {vs ws : List Value} (items : AlikeItems vs ws) : Alike (.list vs) (.list ws)
  | dict {es fs : List (Text × Value)} (entries : AlikeEntries es fs) : Alike (.dict es) (.dict fs)

inductive AlikeItems : List Value → List Value → Prop
  | nil : AlikeItems [] []
  | cons {v w : Value} {vs ws : List Value} (item : Alike v w) (items : AlikeItems vs ws) :
    AlikeItems (v :: vs) (w :: ws)

inductive AlikeEntries : List (Text × Value) → List (Text × Value) → Prop
  | nil : AlikeEntries [] []
  | secret {key : Text} {es fs : List (Text × Value)} (sensitive : isSensitive key = true) (v w : Value)
    (entries : AlikeEntries es fs) : AlikeEntries ((key, v) :: es) ((key, w) :: fs)
  | cons {key : Text} {v w : Value} {es fs : List (Text × Value)} (value : Alike v w)
    (entries : AlikeEntries es fs) : AlikeEntries ((key, v) :: es) ((key, w) :: fs)

end

/-- Events that are equal, each in its context, except for secrets in their extra fields and contexts. -/
structure AlikeEvents (context context' : Entries) (e e' : Event) : Prop where
  context : AlikeEntries context context'
  extra : AlikeEntries e.extra e'.extra
  rest : e' = { e with extra := e'.extra }

/-! ## 2. Where redaction looks -/

mutual

/-- Is nothing stored under a sensitive key, at any depth? -/
def isPlain : Value → Bool
  | .list vs => plainItems vs
  | .dict es => plainEntries es
  | _ => true

def plainItems : List Value → Bool
  | [] => true
  | v :: vs => isPlain v && plainItems vs

def plainEntries : List (Text × Value) → Bool
  | [] => true
  | (key, v) :: es => (!isSensitive key && isPlain v) && plainEntries es

end

mutual

/-- Does redaction look at every secret in a value of a dictionary? -/
def isCovered : Value → Bool
  | .dict es => coveredEntries es
  | .list vs => coveredItems vs
  | _ => true

def coveredItems : List Value → Bool
  | [] => true
  | .dict es :: vs => coveredEntries es && coveredItems vs
  | v :: vs => isPlain v && coveredItems vs

def coveredEntries : List (Text × Value) → Bool
  | [] => true
  | (key, v) :: es => (isSensitive key || isCovered v) && coveredEntries es

end

/-- The fields that an event has itself, as they are logged. -/
def shownFields (e : Event) : Entries := (e.extra.filter fun f => f.1 ≠ Text.ofString "taskName").map showField

/-- Does redaction look at every secret in a field of an event, if the field is logged at all? -/
def coveredField : Text × Value → Bool
  | (key, v) => key = Text.ofString "taskName" || isSensitive key ||
    match v with
    | .dict es => coveredEntries es
    | v => isPlain v

/-- Is a field of the context without secrets, or left out because the event has a field of that name? -/
def coveredContextField (e : Event) (c : Text × Value) : Bool :=
  Entries.has (shownFields e) c.1 || !isSensitive c.1 && isPlain c.2

/-- Does redaction look at every secret that an event and its context hold? -/
def coveredEvent (context : Entries) (e : Event) : Bool :=
  e.extra.all coveredField && context.all (coveredContextField e)

/-! ## 3. Secrets where redaction looks are not told -/

mutual

theorem eq_of_alike : ∀ {v w : Value}, Alike v w → isPlain v = true → v = w
  | _, _, .same _, _ => rfl
  | _, _, .list items, plain => congrArg Value.list (items_eq_of_alike items plain)
  | _, _, .dict entries, plain => congrArg Value.dict (entries_eq_of_alike entries plain)

theorem items_eq_of_alike : ∀ {vs ws : List Value}, AlikeItems vs ws → plainItems vs = true → vs = ws
  | _, _, .nil, _ => rfl
  | _, _, .cons item items, plain => by
    rw [plainItems, Bool.and_eq_true] at plain
    rw [eq_of_alike item plain.1, items_eq_of_alike items plain.2]

theorem entries_eq_of_alike :
    ∀ {es fs : List (Text × Value)}, AlikeEntries es fs → plainEntries es = true → es = fs
  | _, _, .nil, _ => rfl
  | _, _, .secret sensitive v w entries, plain => by
    -- There is no such entry among those that hold no secret.
    rw [plainEntries, sensitive] at plain
    cases plain
  | _, _, .cons value entries, plain => by
    rw [plainEntries, Bool.and_eq_true, Bool.and_eq_true] at plain
    rw [eq_of_alike value plain.1.2, entries_eq_of_alike entries plain.2]

end

/-- An item that is no dictionary is left as it is. -/
theorem redactItems_cons {v : Value} (other : ∀ es, v ≠ .dict es) (vs : List Value) :
    redactItems (v :: vs) = v :: redactItems vs := by
  cases v with
  | dict es => exact absurd rfl (other es)
  | _ => rfl

theorem coveredItems_cons {v : Value} (other : ∀ es, v ≠ .dict es) (vs : List Value) :
    coveredItems (v :: vs) = (isPlain v && coveredItems vs) := by
  cases v with
  | dict es => exact absurd rfl (other es)
  | _ => rfl

mutual

theorem redactValue_eq_of_alike :
    ∀ {v w : Value}, Alike v w → isCovered v = true → redactValue v = redactValue w
  | _, _, .same _, _ => rfl
  | _, _, .list items, covered => congrArg Value.list (redactItems_eq_of_alike items covered)
  | _, _, .dict entries, covered => congrArg Value.dict (redactEntries_eq_of_alike entries covered)

theorem redactItems_eq_of_alike :
    ∀ {vs ws : List Value}, AlikeItems vs ws → coveredItems vs = true → redactItems vs = redactItems ws
  | _, _, .nil, _ => rfl
  | _, _, .cons (v := v) item items, covered => by
    -- Redaction goes on into a dictionary; any other item has to be without secrets.
    by_cases dictionary : ∃ es, v = .dict es
    · obtain ⟨es, rfl⟩ := dictionary
      rw [coveredItems, Bool.and_eq_true] at covered
      have rest := redactItems_eq_of_alike items covered.2
      cases item with
      | same => rw [redactItems, redactItems, rest]
      | dict entries => rw [redactItems, redactItems, redactEntries_eq_of_alike entries covered.1, rest]
    · have other : ∀ es, v ≠ .dict es := not_exists.1 dictionary
      rw [coveredItems_cons other, Bool.and_eq_true] at covered
      rw [← eq_of_alike item covered.1, redactItems_cons other, redactItems_cons other,
        redactItems_eq_of_alike items covered.2]

theorem redactEntries_eq_of_alike :
    ∀ {es fs : List (Text × Value)}, AlikeEntries es fs → coveredEntries es = true →
      redactEntries es = redactEntries fs
  | _, _, .nil, _ => rfl
  | _, _, .secret sensitive v w entries, covered => by
    rw [coveredEntries, Bool.and_eq_true] at covered
    rw [redactEntries_cons_of_sensitive sensitive, redactEntries_cons_of_sensitive sensitive,
      redactEntries_eq_of_alike entries covered.2]
  | _, _, @AlikeEntries.cons key _ _ _ _ value entries, covered => by
    rw [coveredEntries, Bool.and_eq_true] at covered
    rw [redactEntries, redactEntries, redactEntries_eq_of_alike entries covered.2]
    by_cases sensitive : isSensitive key = true
    · rw [if_pos sensitive, if_pos sensitive]
    · rw [if_neg sensitive, if_neg sensitive]
      have covered : isCovered _ = true := (Bool.or_eq_true_iff.1 covered.1).resolve_left sensitive
      rw [redactValue_eq_of_alike value covered]

end

/-! ## 4. Events and their contexts -/

theorem showField_of_sensitive {key : Text} (sensitive : isSensitive key = true) (v : Value) :
    showField (key, v) = (key, redacted) := by
  unfold showField
  exact if_pos sensitive

theorem showField_dict {key : Text} (other : ¬isSensitive key = true) (es : Entries) :
    showField (key, .dict es) = (key, .dict (redactEntries es)) := by
  unfold showField
  exact if_neg other

theorem showField_of_not_dict {key : Text} {v : Value} (other : ¬isSensitive key = true)
    (noDict : ∀ es, v ≠ .dict es) : showField (key, v) = (key, v) := by
  cases v with
  | dict es => exact absurd rfl (noDict es)
  | _ => exact if_neg other

theorem showField_fst (f : Text × Value) : (showField f).1 = f.1 := by
  unfold showField
  split
  split
  · rfl
  · split <;> rfl

theorem showField_eq_of_alike {key : Text} {v w : Value} (value : Alike v w)
    (covered : coveredField (key, v) = true) (logged : key ≠ Text.ofString "taskName") :
    showField (key, v) = showField (key, w) := by
  by_cases sensitive : isSensitive key = true
  · rw [showField_of_sensitive sensitive, showField_of_sensitive sensitive]
  · simp only [coveredField, logged, sensitive, decide_false, Bool.false_or] at covered
    cases value with
    | same => rfl
    | list items => rw [eq_of_alike (.list items) covered]
    | dict entries =>
      rw [showField_dict sensitive, showField_dict sensitive, redactEntries_eq_of_alike entries covered]

theorem shownFields_eq_of_alike {es fs : Entries} (entries : AlikeEntries es fs)
    (covered : es.all coveredField = true) :
    (es.filter fun f => f.1 ≠ Text.ofString "taskName").map showField
      = (fs.filter fun f => f.1 ≠ Text.ofString "taskName").map showField := by
  induction es generalizing fs with
  | nil =>
    cases entries
    rfl
  | cons e es ih =>
    rw [List.all_cons, Bool.and_eq_true] at covered
    cases entries with
    | @secret key _ _ sensitive v w entries =>
      have rest := ih entries covered.2
      have shown : showField (key, v) = showField (key, w) := by
        rw [showField_of_sensitive sensitive, showField_of_sensitive sensitive]
      by_cases logged : key = Text.ofString "taskName"
      · simpa [List.filter_cons, logged] using rest
      · simpa [List.filter_cons, logged, shown] using rest
    | @cons key v w _ _ value entries =>
      have rest := ih entries covered.2
      by_cases logged : key = Text.ofString "taskName"
      · simpa [List.filter_cons, logged] using rest
      · simpa [List.filter_cons, logged, showField_eq_of_alike value covered.1 logged] using rest

theorem filter_eq_of_alike {own es fs : Entries} (entries : AlikeEntries es fs)
    (covered : es.all (fun c => Entries.has own c.1 || !isSensitive c.1 && isPlain c.2) = true) :
    es.filter (fun c => !Entries.has own c.1) = fs.filter fun c => !Entries.has own c.1 := by
  induction es generalizing fs with
  | nil =>
    cases entries
    rfl
  | cons e es ih =>
    rw [List.all_cons, Bool.and_eq_true] at covered
    cases entries with
    | @secret key _ _ sensitive v w entries =>
      have rest := ih entries covered.2
      -- A secret of the context is covered only if the event has a field of that name.
      have shadowed : Entries.has own key = true := by simpa [sensitive] using covered.1
      simpa [List.filter_cons, shadowed] using rest
    | @cons key v w _ _ value entries =>
      have rest := ih entries covered.2
      cases shadowed : Entries.has own key with
      | true => simpa [List.filter_cons, shadowed] using rest
      | false =>
        have plain : isSensitive key = false ∧ isPlain v = true := by simpa [shadowed] using covered.1
        simpa [List.filter_cons, shadowed, eq_of_alike value plain.2] using rest

theorem extraFields_eq (context : Entries) (e : Event) :
    extraFields context e = shownFields e ++ context.filter fun c => !Entries.has (shownFields e) c.1 := rfl

theorem extraFields_eq_of_alike (alike : AlikeEvents context context' e e')
    (covered : coveredEvent context e = true) : extraFields context e = extraFields context' e' := by
  rw [coveredEvent, Bool.and_eq_true] at covered
  have own : shownFields e = shownFields e' := shownFields_eq_of_alike alike.extra covered.1
  rw [extraFields_eq, extraFields_eq, ← own, filter_eq_of_alike alike.context covered.2]

theorem structuredText_eq_of_alike (now : Moment) (alike : AlikeEvents context context' e e')
    (covered : coveredEvent context e = true) :
    structuredText now context e = structuredText now context' e' := by
  have same : record now context e = record now context' e' := by
    rw [record, record, ← extraFields_eq_of_alike alike covered, alike.rest]
    rfl
  rw [structuredText, structuredText, same]

/-! ## 5. Other secrets in place of those that a value holds -/

mutual

/-- A value with `u` in the place of every secret. -/
def expose (u : Value) : Value → Value
  | .list vs => .list (exposeItems u vs)
  | .dict es => .dict (exposeEntries u es)
  | v => v

def exposeItems (u : Value) : List Value → List Value
  | [] => []
  | v :: vs => expose u v :: exposeItems u vs

def exposeEntries (u : Value) : List (Text × Value) → List (Text × Value)
  | [] => []
  | (key, v) :: es => (key, if isSensitive key then u else expose u v) :: exposeEntries u es

end

mutual

theorem alike_expose (u : Value) : ∀ v : Value, Alike v (expose u v)
  | .list vs => .list (alike_exposeItems u vs)
  | .dict es => .dict (alike_exposeEntries u es)
  | .null => .same _
  | .bool _ => .same _
  | .int _ => .same _
  | .float _ => .same _
  | .text _ => .same _
  | .bytes _ => .same _

theorem alike_exposeItems (u : Value) : ∀ vs : List Value, AlikeItems vs (exposeItems u vs)
  | [] => .nil
  | v :: vs => .cons (alike_expose u v) (alike_exposeItems u vs)

theorem alike_exposeEntries (u : Value) : ∀ es : List (Text × Value), AlikeEntries es (exposeEntries u es)
  | [] => .nil
  | (key, v) :: es => by
    rw [exposeEntries]
    split
    case isTrue sensitive => exact .secret sensitive v u (alike_exposeEntries u es)
    case isFalse => exact .cons (alike_expose u v) (alike_exposeEntries u es)

end

/-- `u` is somewhere in a value. -/
inductive Within (u : Value) : Value → Prop
  | self : Within u u
  | item {v : Value} {vs : List Value} (mem : v ∈ vs) (within : Within u v) : Within u (.list vs)
  | entry {e : Text × Value} {es : List (Text × Value)} (mem : e ∈ es) (within : Within u e.2) :
    Within u (.dict es)

mutual

theorem within_expose : ∀ {v : Value}, isPlain v = false → Within u (expose u v)
  | .list _, secret =>
    have ⟨_, mem, within⟩ := within_exposeItems secret
    .item mem within
  | .dict _, secret =>
    have ⟨_, mem, within⟩ := within_exposeEntries secret
    .entry mem within

theorem within_exposeItems : ∀ {vs : List Value}, plainItems vs = false → ∃ w ∈ exposeItems u vs, Within u w
  | v :: vs, secret => by
    rw [plainItems, Bool.and_eq_false_iff] at secret
    obtain here | later := secret
    · exact ⟨_, .head _, within_expose here⟩
    · obtain ⟨w, mem, within⟩ := within_exposeItems later
      exact ⟨w, .tail _ mem, within⟩

theorem within_exposeEntries :
    ∀ {es : List (Text × Value)}, plainEntries es = false → ∃ f ∈ exposeEntries u es, Within u f.2
  | (key, v) :: es, secret => by
    rw [plainEntries, Bool.and_eq_false_iff, Bool.and_eq_false_iff] at secret
    obtain (here | inside) | later := secret
    · have sensitive : isSensitive key = true := by simpa using here
      refine ⟨_, .head _, ?_⟩
      rw [if_pos sensitive]
      exact .self
    · refine ⟨_, .head _, ?_⟩
      split
      · exact .self
      · exact within_expose inside
    · obtain ⟨f, mem, within⟩ := within_exposeEntries later
      exact ⟨f, .tail _ mem, within⟩

end

mutual

theorem within_redactValue : ∀ {v : Value}, isCovered v = false → Within u (redactValue (expose u v))
  | .list _, secret =>
    have ⟨_, mem, within⟩ := within_redactItems secret
    .item mem within
  | .dict _, secret =>
    have ⟨_, mem, within⟩ := within_redactEntries secret
    .entry mem within

theorem within_redactItems :
    ∀ {vs : List Value}, coveredItems vs = false → ∃ w ∈ redactItems (exposeItems u vs), Within u w
  | v :: vs, secret => by
    by_cases dictionary : ∃ es, v = .dict es
    · obtain ⟨es, rfl⟩ := dictionary
      rw [coveredItems, Bool.and_eq_false_iff] at secret
      obtain here | later := secret
      · obtain ⟨f, mem, within⟩ := within_redactEntries here
        exact ⟨_, .head _, .entry mem within⟩
      · obtain ⟨w, mem, within⟩ := within_redactItems later
        exact ⟨w, .tail _ mem, within⟩
    · have other : ∀ es, v ≠ .dict es := not_exists.1 dictionary
      have other' : ∀ es, expose u v ≠ .dict es := by
        cases v with
        | dict es => exact absurd rfl (other es)
        | _ => exact fun _ h => nomatch h
      rw [coveredItems_cons other, Bool.and_eq_false_iff] at secret
      rw [exposeItems, redactItems_cons other']
      obtain here | later := secret
      · exact ⟨_, .head _, within_expose here⟩
      · obtain ⟨w, mem, within⟩ := within_redactItems later
        exact ⟨w, .tail _ mem, within⟩

theorem within_redactEntries :
    ∀ {es : List (Text × Value)}, coveredEntries es = false →
      ∃ f ∈ redactEntries (exposeEntries u es), Within u f.2
  | (key, v) :: es, secret => by
    rw [coveredEntries, Bool.and_eq_false_iff, Bool.or_eq_false_iff] at secret
    obtain ⟨other, inside⟩ | later := secret
    · refine ⟨_, .head _, ?_⟩
      simp only [other]
      exact within_redactValue inside
    · obtain ⟨f, mem, within⟩ := within_redactEntries later
      exact ⟨f, .tail _ mem, within⟩

end

theorem exposeEntries_eq_map (u : Value) (es : Entries) :
    exposeEntries u es = es.map fun e => (e.1, if isSensitive e.1 then u else expose u e.2) := by
  induction es with
  | nil => rfl
  | cons e es ih => rw [exposeEntries, ih, List.map_cons]

/-! ## 6. Secrets where redaction does not look reach the record -/

def exposeEvent (u : Value) (e : Event) : Event := { e with extra := exposeEntries u e.extra }

theorem alikeEvents_expose (u : Value) (context : Entries) (e : Event) :
    AlikeEvents context (exposeEntries u context) e (exposeEvent u e) :=
  ⟨alike_exposeEntries u context, alike_exposeEntries u e.extra, rfl⟩

theorem has_shownFields (e : Event) (key : Text) :
    Entries.has (shownFields e) key = (key ≠ Text.ofString "taskName" && Entries.has e.extra key) := by
  simp only [shownFields, Entries.has, List.any_map, List.any_filter, Function.comp_def, showField_fst]
  induction e.extra with
  | nil => simp
  | cons f fs ih =>
    rw [List.any_cons, List.any_cons, ih]
    by_cases here : f.1 = key
    · rw [here, Bool.and_or_distrib_left]
    · rw [decide_eq_false here, Bool.and_false, Bool.false_or, Bool.false_or]

theorem has_shownFields_expose (u : Value) (e : Event) (key : Text) :
    Entries.has (shownFields (exposeEvent u e)) key = Entries.has (shownFields e) key := by
  have kept : Entries.has (exposeEntries u e.extra) key = Entries.has e.extra key := by
    rw [exposeEntries_eq_map, Entries.has, List.any_map]
    rfl
  rw [has_shownFields, has_shownFields, exposeEvent, kept]

theorem within_shownFields (secret : e.extra.all coveredField = false) :
    ∃ f ∈ shownFields (exposeEvent u e), Within u f.2 := by
  obtain ⟨⟨key, v⟩, mem, secret⟩ := List.all_eq_false.1 secret
  simp only [coveredField, Bool.or_eq_true, not_or, decide_eq_true_eq, Bool.not_eq_true] at secret
  obtain ⟨⟨logged, other⟩, inside⟩ := secret
  have exposed : (key, expose u v) ∈ exposeEntries u e.extra := by
    rw [exposeEntries_eq_map]
    exact List.mem_map.2 ⟨_, mem, by rw [other]; rfl⟩
  have filtered : (key, expose u v) ∈ (exposeEvent u e).extra.filter fun f => f.1 ≠ Text.ofString "taskName" :=
    List.mem_filter.2 ⟨exposed, decide_eq_true logged⟩
  refine ⟨showField (key, expose u v), List.mem_map_of_mem filtered, ?_⟩
  have unhidden : ¬isSensitive key = true := by rw [other]; exact Bool.false_ne_true
  cases v with
  | dict es =>
    rw [expose, showField_dict unhidden]
    obtain ⟨f, mem, within⟩ := within_redactEntries inside
    exact .entry mem within
  | list vs =>
    have noDict (es : Entries) : Value.list (exposeItems u vs) ≠ .dict es := Value.noConfusion
    rw [expose, showField_of_not_dict unhidden noDict]
    exact within_expose inside
  | _ => exact Bool.noConfusion inside

theorem within_extraFields (secret : coveredEvent context e = false) :
    ∃ f ∈ extraFields (exposeEntries u context) (exposeEvent u e), Within u f.2 := by
  rw [coveredEvent, Bool.and_eq_false_iff] at secret
  rw [extraFields_eq]
  obtain inEvent | inContext := secret
  · obtain ⟨f, mem, within⟩ := within_shownFields inEvent
    exact ⟨f, List.mem_append_left _ mem, within⟩
  · obtain ⟨⟨key, v⟩, mem, secret⟩ := List.all_eq_false.1 inContext
    rw [coveredContextField, Bool.or_eq_true, not_or, Bool.and_eq_true, Classical.not_and_iff_not_or_not] at secret
    obtain ⟨shown, secret⟩ := secret
    have exposed : (key, if isSensitive key then u else expose u v) ∈ exposeEntries u context := by
      rw [exposeEntries_eq_map]
      exact List.mem_map_of_mem mem
    refine ⟨_, List.mem_append_right _ (List.mem_filter.2 ⟨exposed, ?_⟩), ?_⟩
    · simpa [has_shownFields_expose] using shown
    · split
      · exact .self
      case isFalse other => exact within_expose (by simpa [other] using secret)

theorem within_record (now : Moment) (secret : coveredEvent context e = false) :
    Within u (.dict (record now (exposeEntries u context) (exposeEvent u e))) := by
  obtain ⟨f, mem, within⟩ := within_extraFields (u := u) secret
  refine .entry (e := ("extra", .dict (extraFields (exposeEntries u context) (exposeEvent u e)))) ?_
    (.entry mem within)
  have shown : (extraFields (exposeEntries u context) (exposeEvent u e)).isEmpty = false :=
    List.isEmpty_eq_false_iff.2 (List.ne_nil_of_mem mem)
  rw [record, shown]
  exact List.mem_append_left _ (List.mem_append_right _ (.head _))

/-! ## 7. A document is at least as long as every text in it -/

theorem length_le_separated (separator : List Char) {part : List Char} {parts : List (List Char)}
    (mem : part ∈ parts) : part.length ≤ (Json.separated separator parts).length := by
  induction parts with
  | nil => cases mem
  | cons first rest ih =>
    cases rest with
    | nil =>
      obtain rfl := List.mem_singleton.1 mem
      exact Nat.le_refl _
    | cons next rest =>
      show _ ≤ (first ++ separator ++ Json.separated separator (next :: rest)).length
      rw [List.length_append, List.length_append]
      obtain rfl | later := List.mem_cons.1 mem
      · omega
      · have := ih later
        omega

theorem length_le_of_within {l : Json.Layout} {ts : List Char} {v : Value}
    (within : Within (.text (Text.ofChars ts)) v) {cs : List Char} (printed : Json.print l v = .ok cs) :
    ts.length ≤ cs.length := by
  -- Induction on the way to the text: a list or an object is longer than each of its parts.
  induction within generalizing cs with
  | self =>
    obtain rfl := Except.ok.inj printed
    have := Json.length_le_flatMap ts
    rw [Json.stringText, List.length_append, List.length_cons]
    omega
  | item mem _ ih =>
    rw [Json.print] at printed
    obtain ⟨parts, hp, rfl⟩ := Outcome.map_eq_ok_iff.1 printed
    obtain ⟨part, among, text⟩ := Outcome.exists_of_mem_right (Json.printItems_eq_ok hp) mem
    have document := length_le_separated l.itemSeparator among
    have inPart := ih text
    rw [List.length_append, List.length_cons]
    omega
  | entry mem _ ih =>
    rw [Json.print] at printed
    obtain ⟨parts, hp, rfl⟩ := Outcome.map_eq_ok_iff.1 printed
    obtain ⟨part, among, text, rfl, ht⟩ := Outcome.exists_of_mem_right (Json.printEntries_eq_ok hp) mem
    have document := length_le_separated l.itemSeparator among
    have inText := ih ht
    rw [List.length_append] at document
    rw [List.length_append, List.length_cons]
    omega

/-! ## 8. What a record tells of secrets -/

theorem length_le_structuredText {now : Moment} {ts : List Char} {t : Text}
    (within : Within (.text (Text.ofChars ts)) (.dict (record now context e)))
    (shown : structuredText now context e = some t) : ts.length ≤ t.length := by
  rw [structuredText] at shown
  split at shown
  case h_1 cs printed =>
    obtain rfl := Option.some.inj shown
    rw [Text.ofChars, List.length_map]
    exact length_le_of_within within printed
  case h_2 => cases shown

/-- Where redaction does not look, another secret gives another text: a longer one. -/
theorem exists_structuredText_ne (now : Moment) (secret : coveredEvent context e = false) (t : Text) :
    ∃ context' e', AlikeEvents context context' e e' ∧ structuredText now context' e' ≠ some t := by
  let long : List Char := List.replicate (t.length + 1) 'x'
  refine ⟨_, _, alikeEvents_expose (.text (Text.ofChars long)) context e, fun shown => ?_⟩
  have bound : long.length ≤ t.length := length_le_structuredText (within_record now secret) shown
  rw [List.length_replicate] at bound
  omega

/-- The text of a record is the same for any secrets exactly if redaction looks at all of them. -/
theorem structuredText_secret_iff (now : Moment) (context : Entries) (e : Event) :
    (coveredEvent context e = true → ∀ context' e', AlikeEvents context context' e e' →
      structuredText now context' e' = structuredText now context e) ∧
    (∀ t, structuredText now context e = some t → (∀ context' e', AlikeEvents context context' e e' →
      structuredText now context' e' = some t) → coveredEvent context e = true) := by
  refine ⟨fun covered _ _ alike => (structuredText_eq_of_alike now alike covered).symm, fun t _ same => ?_⟩
  cases looked : coveredEvent context e with
  | true => rfl
  | false =>
    obtain ⟨context', e', alike, other⟩ := exists_structuredText_ne now looked t
    exact absurd (same context' e' alike) other

/-- A message with some fields. -/
def note (extra : Entries) : Event where
  logger := "fhefield"
  level := 20
  message := "note"
  path := []
  line := 0
  function := none
  extra := extra
  error := none

def noon : Moment := ⟨2024, 1, 1, 12, 0, 0, 0⟩

/-- A field with secrets in a dictionary of a dictionary, and in one that is an item of a list there. -/
def session (t : Text) : Text × Value :=
  ("session", .dict [("id", .int 7), ("login", .dict [("password", .text t)]),
    ("grants", .list [.dict [("access_token", .text t)]])])

theorem structuredText_secret_iff_session : coveredEvent [] (note [session "one"]) = true ∧
    structuredText noon [] (note [session "other"]) = structuredText noon [] (note [session "one"]) ∧
    (structuredText noon [] (note [session "one"])).isSome = true := by
  have covered : coveredEvent [] (note [session "one"]) = true := by decide +kernel
  have login : AlikeEntries [("password", .text "one")] [("password", .text "other")] :=
    .secret (by decide +kernel) _ _ .nil
  have grant : AlikeEntries [("access_token", .text "one")] [("access_token", .text "other")] :=
    .secret (by decide +kernel) _ _ .nil
  have alike : AlikeEvents [] [] (note [session "one"]) (note [session "other"]) :=
    ⟨.nil, .cons (.dict (.cons (.same _) (.cons (.dict login) (.cons (.list (.cons (.dict grant) .nil)) .nil)))) .nil, rfl⟩
  exact ⟨covered, (structuredText_secret_iff noon [] (note [session "one"])).1 covered _ _ alike, by decide +kernel⟩

/-- A dictionary with a secret. -/
def grant (t : Text) : Value := .dict [("token", .text t)]

/-- What is told: a secret in a list that is a field, in a list inside a list, and in the context. -/
theorem structuredText_tells :
    (AlikeEvents [] [] (note [("grants", .list [grant "one"])]) (note [("grants", .list [grant "other"])]) ∧
      structuredText noon [] (note [("grants", .list [grant "one"])])
        ≠ structuredText noon [] (note [("grants", .list [grant "other"])])) ∧
    (AlikeEvents [] [] (note [("user", .dict [("rows", .list [.list [grant "one"]])])])
        (note [("user", .dict [("rows", .list [.list [grant "other"]])])]) ∧
      structuredText noon [] (note [("user", .dict [("rows", .list [.list [grant "one"]])])])
        ≠ structuredText noon [] (note [("user", .dict [("rows", .list [.list [grant "other"]])])])) ∧
    (AlikeEvents [("private_key", .text "one")] [("private_key", .text "other")] (note []) (note []) ∧
      structuredText noon [("private_key", .text "one")] (note [])
        ≠ structuredText noon [("private_key", .text "other")] (note [])) := by
  have token : Alike (grant "one") (grant "other") := .dict (.secret (by decide +kernel) _ _ .nil)
  have grants : Alike (.list [grant "one"]) (.list [grant "other"]) := .list (.cons token .nil)
  refine ⟨⟨⟨.nil, .cons grants .nil, rfl⟩, by decide +kernel⟩, ⟨⟨.nil, ?_, rfl⟩, by decide +kernel⟩,
    ⟨⟨?_, .nil, rfl⟩, by decide +kernel⟩⟩
  · exact .cons (.dict (.cons (.list (.cons grants .nil)) .nil)) .nil
  · exact .secret (by decide +kernel) _ _ .nil

end SealedFields.Log
