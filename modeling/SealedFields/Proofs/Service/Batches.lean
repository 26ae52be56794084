import SealedFields.Proofs.Ciphertext.Boundaries
import SealedFields.Proofs.Service.Opening
import SealedFields.Proofs.Service.RoundTrip

/-!
# Decrypting batches

The fields of a batch are opened together or one after the other. Each of them comes to what it comes to
alone, so that the two ways differ at most in the failure that ends the batch. A batch that goes on after
failures accounts for every field that has a name of its own.
-/

namespace SealedFields.Service

variable {s s' s₁ : Service} {user identity : Text} {rs : List DecryptionRequest} {b : BatchDecryption}
  {handling : ErrorHandling}

/-! ## 1. What outcomes make of a batch -/

/-- The failure that ends a batch, if a field's outcome is one. -/
def stop? : ErrorHandling → Except Failure Value → Option Failure
  | .skip => outside?
  | .fail => failure?

def succeeded (fields : List (DecryptionRequest × Except Failure Value)) : Entries :=
  fields.filterMap fun
    | (r, .ok v) => some (r.fieldName, v)
    | (_, .error _) => none

def failed (fields : List (DecryptionRequest × Except Failure Value)) : List DecryptionFailure :=
  fields.filterMap fun
    | (r, .error (.field e)) => some ⟨r.fieldName, e.code, e.message⟩
    | _ => none

/-- What the outcomes of its fields make of a batch. -/
def settled (handling : ErrorHandling) (fields : List (DecryptionRequest × Except Failure Value)) :
    Except Failure BatchDecryptionResult :=
  match (fields.map (·.2)).findSome? (stop? handling) with
  | some f => .error f
  | none => .ok ⟨Entries.ofWrites (succeeded fields), failed fields⟩

theorem settle_of_ok (handling : ErrorHandling) (acc : BatchDecryptionResult) (r : DecryptionRequest) (v : Value) :
    settle handling acc (r, .ok v) = .ok { acc with values := Entries.put r.fieldName v acc.values } := by
  cases handling <;> rfl

theorem settle_of_outside {x : Except Failure Value} {f : Failure} (h : outside? x = some f)
    (acc : BatchDecryptionResult) (r : DecryptionRequest) : settle handling acc (r, x) = .error f := by
  cases x with
  | ok v => cases h
  | error g =>
    cases g with
    | field e => cases h
    | _ =>
      obtain rfl := Option.some.inj h
      cases handling <;> rfl

theorem failure?_of_outside {x : Except Failure Value} {f : Failure} (h : outside? x = some f) :
    failure? x = some f := by
  cases x with
  | ok v => cases h
  | error g =>
    cases g with
    | field e => cases h
    | _ => exact h

theorem stop?_of_outside {x : Except Failure Value} {f : Failure} (h : outside? x = some f) :
    stop? handling x = some f := by
  cases handling with
  | skip => exact h
  | fail => exact failure?_of_outside h

/-- Settling the fields in their order ends with the first outcome that stops, or has seen all of them. -/
theorem foldlM_settle (handling : ErrorHandling) (fields : List (DecryptionRequest × Except Failure Value))
    (acc : BatchDecryptionResult) : fields.foldlM (settle handling) acc =
      match (fields.map (·.2)).findSome? (stop? handling) with
      | some f => .error f
      | none => .ok ⟨Entries.merge acc.values (succeeded fields), acc.failures ++ failed fields⟩ := by
  induction fields generalizing acc with
  | nil =>
    show Except.ok acc = .ok ⟨acc.values, acc.failures ++ []⟩
    rw [List.append_nil]
  | cons field fields ih =>
    obtain ⟨r, x⟩ := field
    rw [List.foldlM_cons, List.map_cons, List.findSome?_cons]
    rcases outcome_cases x with ⟨v, rfl⟩ | ⟨e, rfl⟩ | ⟨f, outside⟩
    · have goes : stop? handling (.ok v) = none := by cases handling <;> rfl
      rw [settle_of_ok, goes]
      exact ih _
    · -- A failure in the taxonomy ends a batch or is noted, as the batch asks for.
      cases handling with
      | fail => rfl
      | skip =>
        have noted : failed ((r, .error (.field e)) :: fields)
            = [⟨r.fieldName, e.code, e.message⟩] ++ failed fields := rfl
        rw [noted, ← List.append_assoc]
        exact ih _
    · rw [settle_of_outside outside, stop?_of_outside outside]
      rfl

theorem foldlM_settle_nil (handling : ErrorHandling) (fields : List (DecryptionRequest × Except Failure Value)) :
    fields.foldlM (settle handling) ⟨[], []⟩ = settled handling fields := foldlM_settle handling fields _

/-! ## 2. Batches -/

theorem run_admitted {request : Value} (checked : BatchDecryption.check request = .ok b)
    (admitted : (admitBatch user b.fields.length).run s = (.ok identity, s₁)) :
    (decryptBatch user request).run s = (do
      let outcomes ← openFields identity b
      pureResult (settled b.errorHandling (b.fields.zip outcomes)) : ServiceM _).run s₁ := by
  unfold decryptBatch
  rw [run_bind_of_ok (run_accept checked s), run_bind_of_ok admitted]
  simp only [foldlM_settle_nil]

theorem run_refused {request : Value} (checked : BatchDecryption.check request = .ok b) {f : Failure}
    (refused : (admitBatch user b.fields.length).run s = (.error f, s₁)) :
    (decryptBatch user request).run s = (.error f, s₁) := by
  unfold decryptBatch
  rw [run_bind_of_ok (run_accept checked s), run_bind, refused]

theorem quiet_admitted (quiet : s.Quiet) {size : Nat}
    (admitted : (admitBatch user size).run s = (.ok identity, s₁)) : s₁.Quiet ∧ s₁.keys.isSome := by
  obtain ⟨⟨⟩, s₂, bounded, rest⟩ := run_bind_eq_ok admitted
  obtain ⟨⟨⟩, s₃, started, named⟩ := run_bind_eq_ok rest
  obtain ⟨rfl, -⟩ := identityOf_eq_ok named
  have kept : Keeps Settles (checkBatchSize size) := keeps_checkBatchSize size
  have quiet : s₂.Quiet := kept.of_run bounded quiet
  have quiet : s₃.Quiet := settles_start.of_run started quiet
  exact ⟨quiet, quiet.ready (ready_of_start started)⟩

/-! ## 3. Together and one after the other -/

theorem exists_failure_of_outside {outcomes : List (Except Failure Value)} {f : Failure}
    (h : outcomes.findSome? outside? = some f) : ∃ g, outcomes.findSome? failure? = some g := by
  obtain ⟨x, mem, outside⟩ := List.exists_of_findSome?_eq_some h
  refine Option.isSome_iff_exists.1 (List.findSome?_isSome_iff.2 ⟨x, mem, ?_⟩)
  rw [failure?_of_outside outside]
  rfl

theorem settled_of_stop {outcomes : List (Except Failure Value)} (all : outcomes.length ≤ rs.length) {f : Failure}
    (h : outcomes.findSome? (stop? handling) = some f) : settled handling (rs.zip outcomes) = .error f := by
  unfold settled
  rw [List.map_snd_zip all, h]

/-- Together, no field's failure keeps the others from being opened. -/
theorem run_decryptBatch_together (quiet : s.Quiet) {request : Value}
    (checked : BatchDecryption.check request = .ok ⟨rs, true, handling⟩)
    (admitted : (admitBatch user rs.length).run s = (.ok identity, s₁)) :
    ((decryptBatch user request).run s).1 = settled handling (rs.zip (rs.map (s₁.fieldOutcome identity))) := by
  obtain ⟨quiet, keys⟩ := quiet_admitted quiet admitted
  obtain ⟨s₂, all⟩ := run_openTogether quiet keys identity rs
  rw [run_admitted checked admitted]
  exact congrArg Prod.fst (run_bind_of_ok all)

/-- What becomes of a batch whose fields are opened one after the other: the first failure outside the taxonomy
ends it. -/
def settledInTurn (handling : ErrorHandling) (rs : List DecryptionRequest) (outcomes : List (Except Failure Value)) :
    Except Failure BatchDecryptionResult :=
  match outcomes.findSome? outside? with
  | some f => .error f
  | none => settled handling (rs.zip outcomes)

theorem run_decryptBatch_inTurn (quiet : s.Quiet) {request : Value}
    (checked : BatchDecryption.check request = .ok ⟨rs, false, handling⟩)
    (admitted : (admitBatch user rs.length).run s = (.ok identity, s₁)) :
    ((decryptBatch user request).run s).1 = settledInTurn handling rs (rs.map (s₁.fieldOutcome identity)) := by
  obtain ⟨quiet, keys⟩ := quiet_admitted quiet admitted
  obtain ⟨s₂, each⟩ := run_openInTurn quiet keys identity rs
  rw [run_admitted checked admitted]
  show ((openInTurn identity rs >>= fun outcomes =>
    pureResult (settled handling (rs.zip outcomes))).run s₁).1 = _
  rw [run_bind, each]
  unfold settledInTurn
  cases (rs.map (s₁.fieldOutcome identity)).findSome? outside? <;> rfl

/-- The two ways agree unless a batch that fails fast has a failure in the taxonomy before the first one
outside. -/
theorem settledInTurn_eq_settled_iff {outcomes : List (Except Failure Value)} (all : outcomes.length ≤ rs.length) :
    settledInTurn handling rs outcomes = settled handling (rs.zip outcomes) ↔
      (handling = .fail → ∀ f, outcomes.findSome? outside? = some f → outcomes.findSome? failure? = some f) := by
  unfold settledInTurn
  cases outside : outcomes.findSome? outside? with
  | none => exact ⟨fun _ _ f h => (by cases h), fun _ => rfl⟩
  | some f =>
    cases handling with
    | skip =>
      have stopped : settled .skip (rs.zip outcomes) = .error f := settled_of_stop all outside
      rw [stopped]
      exact ⟨fun _ h => (by cases h), fun _ => rfl⟩
    | fail =>
      -- Some failure is the first one, and the question is whether it is this one.
      obtain ⟨g, first⟩ := exists_failure_of_outside outside
      have stopped : settled .fail (rs.zip outcomes) = .error g := settled_of_stop all first
      rw [stopped, first]
      constructor
      · intro same _ f' other
        obtain rfl := Option.some.inj other
        obtain rfl := Except.error.inj same
        rfl
      · intro agree
        obtain rfl := Option.some.inj (agree rfl f rfl)
        rfl

/-- A batch whose fields are opened together and the same batch whose fields are opened one after the other
are refused alike. If they are admitted, every field comes to what it comes to alone. Together, they come to
what these outcomes make of the batch: if it fails fast, to its first failure. One after the other, they come
to the first failure outside the taxonomy if there is one, and to the same otherwise. The two agree unless the
batch fails fast and a failure in the taxonomy comes before the first one outside. -/
theorem batch_together_or_in_turn (quiet : s.Quiet) {together inTurn : Value}
    (checked : BatchDecryption.check together = .ok ⟨rs, true, handling⟩)
    (checked' : BatchDecryption.check inTurn = .ok ⟨rs, false, handling⟩) (user : Text) :
    (∀ f s₁, (admitBatch user rs.length).run s = (.error f, s₁) →
      ((decryptBatch user together).run s).1 = .error f ∧ ((decryptBatch user inTurn).run s).1 = .error f) ∧
    ∀ identity s₁, (admitBatch user rs.length).run s = (.ok identity, s₁) →
      ∃ outcomes, outcomes = rs.map (fun r => ((openOwned identity r).run s₁).1) ∧
        ((decryptBatch user together).run s).1 = settled handling (rs.zip outcomes) ∧
        (handling = .fail → ∀ f, outcomes.findSome? failure? = some f →
          ((decryptBatch user together).run s).1 = .error f) ∧
        ((decryptBatch user inTurn).run s).1 = (match outcomes.findSome? outside? with
          | some f => .error f
          | none => settled handling (rs.zip outcomes)) ∧
        (((decryptBatch user inTurn).run s).1 = ((decryptBatch user together).run s).1 ↔
          (handling = .fail → ∀ f, outcomes.findSome? outside? = some f →
            outcomes.findSome? failure? = some f)) := by
  refine ⟨fun f s₁ refused => ?_, fun identity s₁ admitted => ⟨_, rfl, ?_⟩⟩
  · rw [run_refused checked refused, run_refused checked' refused]
    exact ⟨rfl, rfl⟩
  have parallel := run_decryptBatch_together quiet checked admitted
  have sequential := run_decryptBatch_inTurn quiet checked' admitted
  obtain ⟨quiet, keys⟩ := quiet_admitted quiet admitted
  have alone : (fun r => ((openOwned identity r).run s₁).1) = s₁.fieldOutcome identity := by
    funext r
    obtain ⟨s₂, opens, -⟩ := run_openOwned quiet keys identity r
    rw [opens]
  have all : (rs.map (s₁.fieldOutcome identity)).length ≤ rs.length := Nat.le_of_eq (List.length_map _)
  rw [alone]
  refine ⟨parallel, ?_, sequential, ?_⟩
  · rintro rfl f first
    rw [parallel]
    exact settled_of_stop all first
  · rw [sequential, parallel]
    exact settledInTurn_eq_settled_iff all

/-- A service that has encrypted a greeting. -/
def greeted : Service := ofAlice.after [.encryptField "alice" (.dict greeting.toEntries)]

theorem quiet_assembled {settings : Settings} {users : List (Text × Text)} {ledger : Option Ledger}
    {entropy : Entropy} {unixTime : Int} {outages : Nat} {custodian : Custodian} {wrapper : Option KeyWrapper}
    (answering : Custody.Answering custodian) :
    (assembled settings users ledger entropy unixTime outages custodian wrapper).Quiet := by
  refine ⟨answering, fun store found => ?_, fun ready => ?_⟩
  · cases found
  · cases ready

theorem quiet_greeted : greeted.Quiet := quiet_after (quiet_assembled Custody.answering_empty) _

/-- A field whose wire is no envelope, and one whose noise no float holds. -/
def brokenFields : List DecryptionRequest :=
  let metadata (encoding : Wire.Format) : Metadata := ⟨.bfv, 192, 3.2, false, 0, version, none, none, encoding⟩
  [⟨"torn", "?", metadata .serialized, "string", false⟩,
    ⟨"loud", Wire.overflowingWire, metadata .compressed, "string", false⟩]

def brokenBatch (parallel : Bool) (errorHandling : ErrorHandling) : Value :=
  .dict (BatchDecryption.toEntries ⟨brokenFields, parallel, errorHandling⟩)

def isMalformed {α : Type} : Except Failure α → Bool
  | .error (.field (.malformedCiphertext ..)) => true
  | _ => false

/-- A batch that goes on after failures ends with the failure outside the taxonomy, either way. -/
theorem batch_together_or_in_turn_broken :
    ((decryptBatch "alice" (brokenBatch false .skip)).run greeted).1 = .error .overflow ∧
      ((decryptBatch "alice" (brokenBatch true .skip)).run greeted).1 = .error .overflow := by
  have checked : BatchDecryption.check (brokenBatch true .skip) = .ok ⟨brokenFields, true, .skip⟩ := rfl
  have checked' : BatchDecryption.check (brokenBatch false .skip) = .ok ⟨brokenFields, false, .skip⟩ := rfl
  have admits : ((admitBatch "alice" brokenFields.length).run greeted).1.isOk = true := by decide +kernel
  have overflow : ((decryptBatch "alice" (brokenBatch true .skip)).run greeted).1 = .error .overflow := by
    decide +kernel
  rcases admitted : (admitBatch "alice" brokenFields.length).run greeted with ⟨identity | identity, s₁⟩
  · rw [admitted] at admits
    cases admits
  · obtain ⟨outcomes, -, -, -, -, agree⟩ :=
      (batch_together_or_in_turn quiet_greeted checked checked' "alice").2 identity s₁ admitted
    exact ⟨(agree.2 fun h => by cases h).trans overflow, overflow⟩

/-- A batch that fails fast: together, its first failure ends it; one after the other, the second one does. -/
theorem batch_brokenFields_differs :
    isMalformed ((decryptBatch "alice" (brokenBatch true .fail)).run greeted).1 = true ∧
      ((decryptBatch "alice" (brokenBatch false .fail)).run greeted).1 = .error .overflow ∧
      ((decryptBatch "alice" (brokenBatch true .fail)).run greeted).1
        ≠ ((decryptBatch "alice" (brokenBatch false .fail)).run greeted).1 := by
  have first : isMalformed ((decryptBatch "alice" (brokenBatch true .fail)).run greeted).1 = true := by
    decide +kernel
  have overflow : ((decryptBatch "alice" (brokenBatch false .fail)).run greeted).1 = .error .overflow := by
    decide +kernel
  refine ⟨first, overflow, fun same => ?_⟩
  rw [same, overflow] at first
  cases first

/-! ## 4. What becomes of the fields -/

/-- Unless the batch is ended, each field is a value or a failure. -/
theorem length_succeeded_add_length_failed {fields : List (DecryptionRequest × Except Failure Value)}
    (inside : ∀ field ∈ fields, outside? field.2 = none) :
    (succeeded fields).length + (failed fields).length = fields.length := by
  induction fields with
  | nil => rfl
  | cons field fields ih =>
    obtain ⟨r, x⟩ := field
    have rest := ih fun field mem => inside field (List.mem_cons_of_mem _ mem)
    rw [List.length_cons, ← rest]
    rcases outcome_cases x with ⟨v, rfl⟩ | ⟨e, rfl⟩ | ⟨f, outside⟩
    · show (succeeded fields).length + 1 + (failed fields).length = _
      omega
    · show (succeeded fields).length + ((failed fields).length + 1) = _
      omega
    · have none := inside (r, x) List.mem_cons_self
      rw [outside] at none
      cases none

/-- When a batch that goes on after failures is answered, it was admitted, and each of its fields has come to a value or
to a failure in the taxonomy. The failures are all there, in the order of the fields. Of the values that have one
name only the last one is there, so that none is missing exactly if the names of the values are distinct. -/
theorem batch_account {request : Value} {result : BatchDecryptionResult}
    (checked : BatchDecryption.check request = .ok b) (skips : b.errorHandling = .skip)
    (h : (decryptBatch user request).run s = (.ok result, s')) :
    ∃ identity s₁ outcomes, (admitBatch user b.fields.length).run s = (.ok identity, s₁) ∧
      (openFields identity b).run s₁ = (.ok outcomes, s') ∧
      outcomes.length = b.fields.length ∧ (∀ x ∈ outcomes, outside? x = none) ∧
      result.failures = failed (b.fields.zip outcomes) ∧
      (∀ name, Entries.get? result.values name
        = Entries.get? (succeeded (b.fields.zip outcomes)).reverse name) ∧
      result.values.length = ((succeeded (b.fields.zip outcomes)).map (·.1)).dedup.length ∧
      (succeeded (b.fields.zip outcomes)).length + result.failures.length = b.fields.length ∧
      (result.values.length + result.failures.length = b.fields.length ↔
        ((succeeded (b.fields.zip outcomes)).map (·.1)).Nodup) := by
  have h := bind_accept_eq_ok checked h
  obtain ⟨identity, s₁, admitted, rest₂⟩ := run_bind_eq_ok h
  obtain ⟨outcomes, s₂, opens, rest₃⟩ := run_bind_eq_ok rest₂
  obtain ⟨folded, rfl⟩ := Prod.mk.inj rest₃
  have length := length_openFields opens
  have zipped : (b.fields.zip outcomes).length = b.fields.length := by
    rw [List.length_zip, length, Nat.min_self]
  rw [foldlM_settle_nil, skips] at folded
  unfold settled at folded
  split at folded
  case h_1 => cases folded
  case h_2 goes =>
    obtain rfl := Except.ok.inj folded
    rw [List.map_snd_zip (Nat.le_of_eq length)] at goes
    have inside : ∀ x ∈ outcomes, outside? x = none := List.findSome?_eq_none_iff.1 goes
    have each : ∀ field ∈ b.fields.zip outcomes, outside? field.2 = none :=
      fun field mem => inside field.2 (List.of_mem_zip mem).2
    have account := length_succeeded_add_length_failed each
    rw [zipped] at account
    refine ⟨identity, s₁, outcomes, admitted, opens, length, inside, rfl, fun name => ?_, Entries.length_ofWrites _,
      account, ?_⟩
    · show Entries.get? (Entries.merge [] (succeeded (b.fields.zip outcomes))) name = _
      rw [Entries.get?_merge, Entries.get?_nil, Option.or_none]
    · rw [← Entries.length_ofWrites_eq_iff]
      show (Entries.ofWrites (succeeded (b.fields.zip outcomes))).length + (failed (b.fields.zip outcomes)).length
        = _ ↔ _
      omega

/-- A field whose wire is all tag, so that its plaintext is empty. -/
def emptyField (name dataType : Text) : DecryptionRequest :=
  let wire : Text := "eyJkIjoiMHgw" ++ (List.replicate 21 ("MDAw" : Text)).flatten ++ "IiwibiI6MzIwMCwicCI6MCwicyI6Mn0="
  ⟨name, wire, ⟨.bfv, 192, 3.2, false, 0, version, none, none, .compressed⟩, dataType, false⟩

def skippingBatch (rs : List DecryptionRequest) : Value := .dict (BatchDecryption.toEntries ⟨rs, true, .skip⟩)

/-- The numbers of values and failures that are answered. -/
def account? : Except Failure BatchDecryptionResult → Option (Nat × Nat)
  | .ok result => some (result.values.length, result.failures.length)
  | .error _ => none

theorem exists_of_account? {x : Except Failure BatchDecryptionResult} {n m : Nat} (h : account? x = some (n, m)) :
    ∃ result, x = .ok result ∧ result.values.length = n ∧ result.failures.length = m := by
  cases x with
  | error f => cases h
  | ok result =>
    obtain ⟨values, failures⟩ := Prod.mk.inj (Option.some.inj h)
    exact ⟨result, rfl, values, failures⟩

/-- One field of two is torn, and the other is answered. -/
theorem batch_account_torn : ∃ result outcomes identity s₁, account? (.ok result) = some (1, 1) ∧
    (admitBatch "alice" 2).run greeted = (.ok identity, s₁) ∧
    ((decryptBatch "alice" (skippingBatch (emptyField "empty" "string" :: brokenFields.take 1))).run greeted).1
      = .ok result ∧
    result.failures = failed ((emptyField "empty" "string" :: brokenFields.take 1).zip outcomes) := by
  have checked : BatchDecryption.check (skippingBatch (emptyField "empty" "string" :: brokenFields.take 1))
      = .ok ⟨emptyField "empty" "string" :: brokenFields.take 1, true, .skip⟩ := rfl
  have answered : account? ((decryptBatch "alice"
      (skippingBatch (emptyField "empty" "string" :: brokenFields.take 1))).run greeted).1 = some (1, 1) := by
    decide +kernel
  rcases run : (decryptBatch "alice" (skippingBatch (emptyField "empty" "string" :: brokenFields.take 1))).run greeted
    with ⟨result | result, s'⟩
  · rw [run] at answered
    cases answered
  · rw [run] at answered
    obtain ⟨identity, s₁, outcomes, admitted, -, -, -, failures, -⟩ := batch_account checked rfl run
    exact ⟨result, outcomes, identity, s₁, answered, admitted, rfl, failures⟩

/-- Of two values under one name, one is lost. -/
theorem batch_sameName_loses : ∃ result,
    ((decryptBatch "alice" (skippingBatch [emptyField "f" "string", emptyField "f" "bigint"])).run greeted).1
      = .ok result ∧ result.values.length + result.failures.length = 1 := by
  have answered : account? ((decryptBatch "alice"
      (skippingBatch [emptyField "f" "string", emptyField "f" "bigint"])).run greeted).1 = some (1, 0) := by
    decide +kernel
  obtain ⟨result, run, values, failures⟩ := exists_of_account? answered
  exact ⟨result, run, by rw [values, failures]⟩

end SealedFields.Service
