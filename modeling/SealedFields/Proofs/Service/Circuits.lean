import SealedFields.Proofs.Number.Decimal
import SealedFields.Proofs.Service.RoundTrip
import SealedFields.Proofs.Text.Encodings

/-!
# Stored circuits

A circuit is stored under a digest of its owner, its name and the time. An identifier loads the circuit that
was stored under it last: the one that it was returned for, unless the same text was hashed again.
-/

namespace SealedFields

/-! ## 1. Seeds -/

/-- What comes after the last separator, and what comes before it. -/
theorem append_cons_inj_of_notMem_right {α : Type} {a : α} {xs ys ds es : List α} (hd : a ∉ ds) (he : a ∉ es) :
    xs ++ a :: ds = ys ++ a :: es ↔ xs = ys ∧ ds = es := by
  -- If one beginning were longer, the separator would occur again after the other one.
  have again : ∀ {zs ds es : List α}, a ∉ ds → a :: ds = zs ++ a :: es → zs = [] ∧ ds = es := by
    intro zs ds es away h
    cases zs with
    | nil => exact ⟨rfl, (List.cons.inj h).2⟩
    | cons z zs =>
      refine absurd ?_ away
      rw [(List.cons.inj h).2]
      exact List.mem_append_right zs List.mem_cons_self
  constructor
  · intro h
    rcases List.append_eq_append_iff.1 h with ⟨zs, rfl, rest⟩ | ⟨zs, rfl, rest⟩
    · obtain ⟨rfl, rfl⟩ := again hd rest
      exact ⟨(List.append_nil xs).symm, rfl⟩
    · obtain ⟨rfl, rfl⟩ := again he rest
      exact ⟨List.append_nil ys, rfl⟩
  · rintro ⟨rfl, rfl⟩
    rfl

theorem Text.ofInt_of_nonneg {i : Int} (nonneg : 0 ≤ i) : Text.ofInt i = Text.ofChars (Decimal.ofNat i.toNat) := by
  obtain ⟨n, rfl⟩ := Int.eq_ofNat_of_zero_le nonneg
  rfl

theorem Text.ofInt_inj {i j : Int} (hi : 0 ≤ i) (hj : 0 ≤ j) : Text.ofInt i = Text.ofInt j ↔ i = j := by
  constructor
  · intro h
    rw [Text.ofInt_of_nonneg hi, Text.ofInt_of_nonneg hj] at h
    have digits := congrArg Text.chars? h
    rw [Text.chars?_ofChars, Text.chars?_ofChars] at digits
    have value := congrArg Decimal.value (Option.some.inj digits)
    rw [Decimal.value_ofNat, Decimal.value_ofNat] at value
    omega
  · exact congrArg Text.ofInt

theorem Text.hyphen_notMem_ofInt {i : Int} (nonneg : 0 ≤ i) : CodePoint.scalar '-' ∉ Text.ofInt i := by
  rw [Text.ofInt_of_nonneg nonneg]
  intro mem
  obtain ⟨c, digit, same⟩ := List.mem_map.1 mem
  obtain rfl := CodePoint.scalar.inj same
  have no : Decimal.isDigit '-' = true := Decimal.isDigit_ofNat i.toNat '-' digit
  exact absurd no (by decide)

namespace Service

/-- The time can be read off a seed; where the owner ends and the name begins cannot. -/
theorem circuitSeed_inj {identity name identity' name' : Text} {t t' : Int} (ht : 0 ≤ t) (ht' : 0 ≤ t') :
    circuitSeed identity name t = circuitSeed identity' name' t' ↔
      Text.join "-" [identity, name] = Text.join "-" [identity', name'] ∧ t = t' := by
  have parts : ∀ (identity name : Text) t, circuitSeed identity name t
      = Text.join "-" [identity, name] ++ CodePoint.scalar '-' :: Text.ofInt t := by
    intro identity name t
    show identity ++ ("-" : Text) ++ (name ++ ("-" : Text) ++ Text.ofInt t)
      = identity ++ ("-" : Text) ++ name ++ (("-" : Text) ++ Text.ofInt t)
    simp only [List.append_assoc]
  rw [parts, parts, append_cons_inj_of_notMem_right (Text.hyphen_notMem_ofInt ht) (Text.hyphen_notMem_ofInt ht'),
    Text.ofInt_inj ht ht']

theorem circuitId_eq_ok {identity name id : Text} {t : Int} (h : circuitId identity name t = .ok id) :
    ∃ bs, (circuitSeed identity name t).utf8? = some bs ∧ id = ("0x" : Text) ++ Sha256.hex bs := by
  unfold circuitId at h
  split at h
  case h_1 bs encoded => exact ⟨bs, encoded, (Except.ok.inj h).symm⟩
  case h_2 => cases h

/-! ## 2. What is stored -/

variable {s s' : Service} {user identity id : Text} {request : Value}

/-- Whose circuit an identifier stands for, and which. -/
def holding (s : Service) (id : Text) : Option (Text × Circuit) :=
  (Entries.get? s.circuits id).map fun stored => (stored.owner, stored.circuit)

theorem run_circuitOf (s : Service) (identity id : Text) : ((circuitOf identity id).run s).1 =
    match (s.holding id).filter (·.1 = identity) with
    | some (_, circuit) => .ok circuit
    | none => .error (.field (.circuitNotFound id)) := by
  unfold circuitOf holding
  rw [run_bind_of_ok (run_get s)]
  cases Entries.get? s.circuits id with
  | none => rfl
  | some stored =>
    by_cases own : stored.owner = identity
    · simp only [Option.map_some, Option.filter, own, decide_true, if_true]
      rfl
    · simp [Option.filter, own]
      rfl

/-- Of all that requests are made of nothing changes the circuits. -/
def SameCircuits (s s' : Service) : Prop := s'.circuits = s.circuits

instance : Std.Refl SameCircuits := ⟨fun _ => rfl⟩

instance : IsTrans Service SameCircuits := ⟨fun _ _ _ first second => second.trans first⟩

instance : LedgerFramed SameCircuits where
  start := keeps_start_of (fun _ _ _ _ _ _ => rfl) (fun _ _ _ _ => rfl) fun _ _ => rfl
  ask _ _ := keeps_withKeys_of fun _ _ _ => rfl
  askAll _ := keeps_withKeys_of fun _ _ _ => rfl
  bootstrappingKey _ _ := keeps_withKeys_of fun _ _ _ => rfl
  counters _ _ := rfl
  ledger _ _ := rfl

/-- A circuit that compiles is stored under its identifier. -/
theorem createCircuit_eq_ok (h : (createCircuit user request).run s = (.ok id, s')) :
    ∃ circuit identity plan, Circuit.check request = .ok circuit ∧
      (Entries.get? s.users user).filter (!·.isEmpty) = some identity ∧
      circuit.compile s.settings.maxCircuitDepth .standard = .ok plan ∧
      circuitId identity circuit.name s.unixTime = .ok id ∧
      s'.circuits = Entries.put id ⟨identity, circuit, plan⟩ s.circuits := by
  obtain ⟨circuit, s₁, accepted, h⟩ := run_bind_eq_ok h
  obtain ⟨passed, rfl⟩ := accept_eq_ok accepted
  obtain ⟨identity, s₂, named, h⟩ := run_bind_eq_ok h
  obtain ⟨rfl, known⟩ := identityOf_eq_ok named
  rw [run_bind_of_ok (run_get s)] at h
  obtain ⟨plan, s₃, planned, h⟩ := run_bind_eq_ok h
  obtain ⟨compiled, rfl⟩ := Prod.mk.inj planned
  obtain ⟨id', s₄, digested, h⟩ := run_bind_eq_ok h
  obtain ⟨identified, rfl⟩ := Prod.mk.inj digested
  obtain ⟨⟨⟩, s₅, stored, h⟩ := run_bind_eq_ok h
  obtain ⟨-, rfl⟩ := Prod.mk.inj stored
  obtain ⟨⟨⟩, s₆, counted, h⟩ := run_bind_eq_ok h
  obtain ⟨-, rfl⟩ := Prod.mk.inj counted
  obtain ⟨same, rfl⟩ := Prod.mk.inj h
  obtain rfl := Except.ok.inj same
  exact ⟨circuit, identity, plan, passed, known, compiled, identified, rfl⟩

/-- A circuit that is refused is not stored. -/
theorem createCircuit_eq_error {f : Failure} (h : (createCircuit user request).run s = (.error f, s')) :
    s'.circuits = s.circuits := by
  rcases run_bind_eq_error h with refused | ⟨circuit, s₁, accepted, h⟩
  · rw [← (Prod.mk.inj refused).2]
  obtain ⟨-, rfl⟩ := accept_eq_ok accepted
  rcases run_bind_eq_error h with unknown | ⟨identity, s₂, named, h⟩
  · have kept : Keeps SameCircuits (identityOf user) := keeps_identityOf user
    exact kept.of_run unknown
  obtain ⟨rfl, -⟩ := identityOf_eq_ok named
  rw [run_bind_of_ok (run_get s)] at h
  rcases run_bind_eq_error h with refused | ⟨plan, s₃, compiled, h⟩
  · rw [← (Prod.mk.inj refused).2]
  obtain ⟨-, rfl⟩ := Prod.mk.inj compiled
  rcases run_bind_eq_error h with refused | ⟨id, s₄, identified, h⟩
  · rw [← (Prod.mk.inj refused).2]
  -- From here on nothing fails.
  cases h

/-! ## 3. One event -/

/-- A circuit that was stored: whose it is, the clock's reading, and the identifier that was returned. -/
structure Creation where
  owner : Text
  circuit : Circuit
  unixTime : Int
  id : Text

def Creation.seed (c : Creation) : Text := circuitSeed c.owner c.circuit.name c.unixTime

/-- What an event creates, if it is an answered request for a circuit to be stored. -/
def creation? (s : Service) : Event → Option Creation
  | .createCircuit user request =>
    match Circuit.check request, (Entries.get? s.users user).filter (!·.isEmpty),
      ((createCircuit user request).run s).1 with
    | .ok circuit, some owner, .ok id => some ⟨owner, circuit, s.unixTime, id⟩
    | _, _, _ => none
  | _ => none

theorem id_of_creation? {e : Event} {c : Creation} (h : creation? s e = some c) :
    ∃ bs, c.seed.utf8? = some bs ∧ c.id = ("0x" : Text) ++ Sha256.hex bs := by
  unfold creation? at h
  split at h
  case h_2 => cases h
  case h_1 user request =>
    split at h
    case h_2 => cases h
    case h_1 circuit owner id passed known told =>
      obtain rfl := Option.some.inj h
      obtain ⟨circuit', owner', plan, passed', known', -, identified, -⟩ :=
        createCircuit_eq_ok (Prod.ext told rfl)
      obtain rfl := Checked.ok.inj (passed.symm.trans passed')
      obtain rfl := Option.some.inj (known.symm.trans known')
      exact circuitId_eq_ok identified

/-- After an event an identifier stands for what the event created under it, and otherwise for what it stood
for before. -/
theorem holding_happen (s : Service) (e : Event) (id : Text) : (happen s e).holding id =
    (((creation? s e).filter (·.id = id)).map fun c => (c.owner, c.circuit)).or (s.holding id) := by
  have same : (happen s e).circuits = s.circuits → creation? s e = none → (happen s e).holding id =
      (((creation? s e).filter (·.id = id)).map fun c => (c.owner, c.circuit)).or (s.holding id) := by
    intro circuits_eq none
    unfold holding
    rw [none, circuits_eq]
    rfl
  by_cases create : ∃ user request, e = .createCircuit user request
  · obtain ⟨user, request, rfl⟩ := create
    rcases run : (createCircuit user request).run s with ⟨id' | id', s'⟩
    · refine same ?_ ?_
      · show ((createCircuit user request).run s).2.circuits = _
        rw [run]
        exact createCircuit_eq_error run
      · unfold creation?
        simp [run]
    · obtain ⟨circuit, owner, plan, passed, known, -, -, stored⟩ := createCircuit_eq_ok run
      have created : creation? s (.createCircuit user request) = some ⟨owner, circuit, s.unixTime, id'⟩ := by
        unfold creation?
        simp only [passed, known, run]
      have left : happen s (.createCircuit user request) = s' := congrArg Prod.snd run
      rw [created, left]
      unfold holding
      rw [stored, Entries.get?_put]
      by_cases h : id = id'
      · simp [h, Option.filter]
      · simp [h, Ne.symm h, Option.filter]
  · have away : ∀ user request, e ≠ .createCircuit user request :=
      fun user request h => create ⟨user, request, h⟩
    have kept : SameCircuits s (happen s e) := framed_happen
      (fun user request h => absurd h (away user request)) (fun _ _ => rfl) (fun _ => rfl) (fun _ => rfl) fun _ => rfl
    refine same kept ?_
    unfold creation?
    split
    case h_1 user request => exact absurd rfl (away user request)
    case h_2 => rfl

/-! ## 4. Runs -/

/-- An event, and what the clock reads when it happens. -/
structure Moment where
  unixTime : Int
  event : Event

def pass (s : Service) (m : Moment) : Service := happen { s with unixTime := m.unixTime } m.event

/-- The service after a run, whatever the clock reads in it: the same time twice, or an earlier time. -/
def passAll (s : Service) (ms : List Moment) : Service := ms.foldl pass s

/-- The circuits that are stored during a run, the first one first. -/
def creations (s : Service) : List Moment → List Creation
  | [] => []
  | m :: ms => (creation? { s with unixTime := m.unixTime } m.event).toList ++ creations (pass s m) ms

/-- An identifier stands for what was last stored under it. -/
theorem holding_passAll (s : Service) (ms : List Moment) (id : Text) : (passAll s ms).holding id =
    (((creations s ms).reverse.find? (·.id = id)).map fun c => (c.owner, c.circuit)).or (s.holding id) := by
  induction ms generalizing s with
  | nil => rfl
  | cons m ms ih =>
    have last : ∀ o : Option Creation, o.toList.reverse.find? (·.id = id) = o.filter (·.id = id) := by
      intro o
      cases o with
      | none => rfl
      | some c => by_cases h : c.id = id <;> simp [Option.filter, h]
    show (passAll (pass s m) ms).holding id = _
    rw [ih, creations, List.reverse_append, List.find?_append, last, Option.map_or, Option.or_assoc]
    exact congrArg _ (holding_happen { s with unixTime := m.unixTime } m.event id)

theorem id_of_mem_creations {ms : List Moment} {c : Creation} (h : c ∈ creations s ms) :
    ∃ bs, c.seed.utf8? = some bs ∧ c.id = ("0x" : Text) ++ Sha256.hex bs := by
  induction ms generalizing s with
  | nil => exact absurd h List.not_mem_nil
  | cons m ms ih =>
    rcases List.mem_append.1 h with here | later
    · exact id_of_creation? (Option.mem_toList.1 here)
    · exact ih later

/-- The bytes that identifiers were made of. -/
def hashed (cs : List Creation) : List Bytes := cs.filterMap (·.seed.utf8?)

/-- Messages of which no two have the same digest. -/
def Collisionless (messages : List Bytes) : Prop :=
  ∀ a ∈ messages, ∀ b ∈ messages, Sha256.digest a = Sha256.digest b → a = b

instance (messages : List Bytes) : Decidable (Collisionless messages) := by
  unfold Collisionless
  infer_instance

theorem id_eq_iff {ms : List Moment} {c d : Creation} (collisionless : Collisionless (hashed (creations s ms)))
    (hc : c ∈ creations s ms) (hd : d ∈ creations s ms) : d.id = c.id ↔ d.seed = c.seed := by
  obtain ⟨bs, encoded, id_eq⟩ := id_of_mem_creations hc
  obtain ⟨bs', encoded', id_eq'⟩ := id_of_mem_creations hd
  rw [id_eq, id_eq']
  constructor
  · intro same
    have digests := Hex.toText_injective (List.append_cancel_left same)
    have messages := collisionless bs' (List.mem_filterMap.2 ⟨d, hd, encoded'⟩) bs
      (List.mem_filterMap.2 ⟨c, hc, encoded⟩) digests
    rw [messages] at encoded'
    exact Text.utf8?_inj encoded' encoded
  · intro same
    rw [same, encoded] at encoded'
    rw [Option.some.inj encoded']

/-- Under an identifier its owner finds a circuit, and nobody else finds any. -/
def Loads (s : Service) (id owner : Text) (circuit : Circuit) : Prop :=
  ∀ identity, ((circuitOf identity id).run s).1 =
    if identity = owner then .ok circuit else .error (.field (.circuitNotFound id))

theorem loads_of_holding {owner : Text} {circuit : Circuit} (h : s.holding id = some (owner, circuit)) :
    s.Loads id owner circuit := by
  intro identity
  rw [run_circuitOf, h]
  by_cases own : identity = owner
  · simp [Option.filter, own]
  · simp [Option.filter, own, Ne.symm own]

/-- As long as no digests collide, two identifiers are the same exactly if they were made of one text, which
takes the same reading of the clock and the same owner and name, joined. An identifier then loads the circuit
it was returned for, and for its owner only, as long as its text does not come again; when it does, the
circuit that comes with it takes the place of the one before. -/
theorem circuit_loaded_until_seed_again {ms : List Moment} {before later : List Creation} {c : Creation}
    (log : creations s ms = before ++ c :: later) (collisionless : Collisionless (hashed (creations s ms))) :
    (∀ d ∈ later, d.id = c.id ↔ d.seed = c.seed) ∧
    (∀ d ∈ later, 0 ≤ c.unixTime → 0 ≤ d.unixTime → (d.seed = c.seed ↔
      Text.join "-" [d.owner, d.circuit.name] = Text.join "-" [c.owner, c.circuit.name] ∧
        d.unixTime = c.unixTime)) ∧
    ((∀ d ∈ later, d.seed ≠ c.seed) → (passAll s ms).Loads c.id c.owner c.circuit) ∧
    ∀ between d after, later = between ++ d :: after → d.seed = c.seed →
      (∀ e ∈ after, e.seed ≠ c.seed) → (passAll s ms).Loads c.id d.owner d.circuit := by
  have memOf : ∀ d ∈ c :: later, d ∈ creations s ms := by
    intro d hd
    rw [log]
    exact List.mem_append_right before hd
  have ids : ∀ d ∈ later, d.id = c.id ↔ d.seed = c.seed := fun d hd =>
    id_eq_iff collisionless (memOf c List.mem_cons_self) (memOf d (List.mem_cons_of_mem c hd))
  -- What was stored last under an identifier is what it loads.
  have last : ∀ early d after, creations s ms = early ++ d :: after → d.id = c.id →
      (∀ e ∈ after, e.id ≠ c.id) → (passAll s ms).Loads c.id d.owner d.circuit := by
    intro early d after split same others
    apply loads_of_holding
    have none : after.reverse.find? (·.id = c.id) = none := by
      rw [List.find?_eq_none]
      intro e he
      simpa using others e (List.mem_reverse.1 he)
    rw [holding_passAll, split, List.reverse_append, List.reverse_cons, List.find?_append, List.find?_append, none,
      List.find?_cons_of_pos (by simpa using same)]
    rfl
  refine ⟨ids, fun d _ hc hd => circuitSeed_inj hd hc, fun others => ?_, ?_⟩
  · exact last before c later log rfl fun e he h => others e he ((ids e he).1 h)
  · rintro between d after rfl same others
    have mem : ∀ e ∈ d :: after, e ∈ between ++ d :: after := fun e he => List.mem_append_right between he
    refine last (before ++ c :: between) d after ?_ ((ids d (mem d List.mem_cons_self)).2 same) fun e he h => ?_
    · rw [log, List.append_assoc]
      rfl
    · exact others e he ((ids e (mem e (List.mem_cons_of_mem d he))).1 h)

/-- A circuit of one gate from its input to its output. -/
def oneGate (operation : Text) (inputs : List Value) : Value :=
  .dict [("name", .text "rate"), ("inputs", .list [.text "x"]), ("outputs", .list [.text "y"]),
    ("gates", .list [.dict [("operation", .text operation), ("inputs", .list inputs), ("output", .text "y")]])]

/-- Two circuits of one name, the second one when the clock reads the given time. -/
def twoRates (unixTime : Int) : List Moment :=
  [⟨0, .createCircuit "alice" (oneGate "negate" [.text "x"])⟩,
    ⟨unixTime, .createCircuit "alice" (oneGate "add" [.text "x", .text "x"])⟩]

def Creation.operations (c : Creation) : List Text := c.circuit.gates.map (·.operation)

/-- Circuits of one name that are stored at different times do not replace each other. -/
theorem circuit_loaded_until_seed_again_twoRates : ∃ c d, creations ofAlice (twoRates 1) = [c, d] ∧
    c.operations = ["negate"] ∧ d.operations = ["add"] ∧
    (passAll ofAlice (twoRates 1)).Loads c.id c.owner c.circuit := by
  have operations : (creations ofAlice (twoRates 1)).map Creation.operations
      = ([["negate"], ["add"]] : List (List Text)) := by decide +kernel
  have fresh : ((creations ofAlice (twoRates 1)).map Creation.seed).Nodup := by decide +kernel
  have collisionless : Collisionless (hashed (creations ofAlice (twoRates 1))) := by decide +kernel
  obtain ⟨c, ds, log, first, rest⟩ := List.map_eq_cons_iff.1 operations
  obtain ⟨d, es, rfl, second, none⟩ := List.map_eq_cons_iff.1 rest
  obtain rfl := List.map_eq_nil_iff.1 none
  refine ⟨c, d, log, first, second, ?_⟩
  have split : creations ofAlice (twoRates 1) = [] ++ c :: [d] := log
  obtain ⟨-, -, loads, -⟩ := circuit_loaded_until_seed_again split collisionless
  apply loads
  intro e he same
  rw [log] at fresh
  rw [List.mem_singleton.1 he] at same
  exact (List.nodup_cons.1 fresh).1 (by rw [← same]; exact List.mem_singleton_self _)

/-- Of two circuits of one name that are stored while the clock reads the same time, the second one takes the
place of the first one. -/
theorem circuit_sameReading_replaced : ∃ c d, creations ofAlice (twoRates 0) = [c, d] ∧
    Collisionless (hashed (creations ofAlice (twoRates 0))) ∧ d.id = c.id ∧
    ¬ (passAll ofAlice (twoRates 0)).Loads c.id c.owner c.circuit := by
  have operations : (creations ofAlice (twoRates 0)).map Creation.operations
      = ([["negate"], ["add"]] : List (List Text)) := by decide +kernel
  have same : ∀ c ∈ creations ofAlice (twoRates 0), ∀ d ∈ creations ofAlice (twoRates 0),
      d.id = c.id ∧ d.owner = c.owner := by decide +kernel
  have collisionless : Collisionless (hashed (creations ofAlice (twoRates 0))) := by decide +kernel
  obtain ⟨c, ds, log, first, rest⟩ := List.map_eq_cons_iff.1 operations
  obtain ⟨d, es, rfl, second, none⟩ := List.map_eq_cons_iff.1 rest
  obtain rfl := List.map_eq_nil_iff.1 none
  rw [log] at same
  obtain ⟨id_eq, owner_eq⟩ := same c (by simp) d (by simp)
  refine ⟨c, d, log, collisionless, id_eq, fun loads => ?_⟩
  have held : (passAll ofAlice (twoRates 0)).holding c.id = some (d.owner, d.circuit) := by
    rw [holding_passAll, log]
    simp [id_eq]
  -- The owner finds the second circuit, which is not the first one.
  have found := loads c.owner
  rw [loads_of_holding held c.owner, if_pos owner_eq.symm, if_pos rfl] at found
  rw [Creation.operations, Except.ok.inj found] at second
  have one : ([("negate" : Text)] : List Text) = ["add"] := first.symm.trans second
  exact absurd one (by decide)

end Service

end SealedFields
