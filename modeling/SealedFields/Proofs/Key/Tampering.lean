import SealedFields.Proofs.Key.Lookups
import SealedFields.Proofs.Key.Wrapping
import SealedFields.Proofs.Text.Encodings

/-!
# Records that were tampered with

A record is refused if one of its wrapped keys is not what wrapping for its owner and role makes. Whoever asks for
the keys of an owner with such a record is refused, alone or while others ask: no key is cached for the owner, none
is made, and the record stays as it is.
-/

namespace SealedFields

theorem Text.utf8?_append (t u : Text) :
    (t ++ u).utf8? = t.utf8?.bind fun bs => u.utf8?.map (bs ++ ·) := by
  have chars : (t ++ u).chars? = t.chars?.bind fun cs => u.chars?.map (cs ++ ·) := by
    unfold Text.chars?
    rw [List.mapM_append]
    cases t.mapM CodePoint.scalar? <;> cases u.mapM CodePoint.scalar? <;> rfl
  unfold Text.utf8?
  rw [chars]
  cases t.chars? with
  | none => rfl
  | some cs =>
    cases u.chars? with
    | none => rfl
    | some ds => simp [Utf8.encode]

/-- An owner's name alone decides whether there is data to bind wrapped keys to. -/
theorem Owner.associatedData_eq (o : Owner) (role : KeyRole) :
    ∃ suffix, o.associatedData role = match o.identity.utf8? with
      | some bs => .ok (bs ++ suffix)
      | none => .error .unencodable := by
  have suffix : ∃ suffix, Text.utf8? ("|" ++ (o.scheme.tag ++ ("|" ++ (role.name : Text)))) = some suffix := by
    refine Text.exists_utf8? ?_
    cases o.scheme <;> cases role <;> decide
  obtain ⟨suffix, encoded⟩ := suffix
  refine ⟨suffix, ?_⟩
  unfold associatedData
  rw [List.append_assoc, List.append_assoc, List.append_assoc, Text.utf8?_append, encoded]
  cases o.identity.utf8? <;> rfl

def KeyRecord.wrapped (r : KeyRecord) : KeyRole → Bytes
  | .decryption => r.wrappedPrivateKey
  | .evaluation => r.wrappedEvaluationKey

namespace Custody

/-! ## 1. Records that do not open -/

/-- A text is what wrapping a key makes, for this owner and role. -/
def Accepts (w : KeyWrapper) (o : Owner) (role : KeyRole) (wrapped : Bytes) : Prop :=
  ∃ associated nonce key, o.associatedData role = .ok associated ∧
    nonce.length = KeyWrapper.nonceSize ∧ wrapped = w.wrapWith nonce key (some associated)

/-- How a text that is not accepted is refused: nothing can be bound to an owner whose name has no bytes, and a text
without room for a nonce does not get as far as its tag. -/
def refusal (o : Owner) (wrapped : Bytes) : Failure :=
  if o.identity.utf8? = none then .unencodable
  else if wrapped.length < KeyWrapper.leastNonceSize then .badValue
  else .field (.custodianFailed "stored key material failed authentication" "retrieve")

/-- The first key of a record that is not accepted, and how it is refused. -/
def Refuses (w : KeyWrapper) (o : Owner) (r : KeyRecord) (f : Failure) : Prop :=
  ∃ role, ¬ Accepts w o role (r.wrapped role) ∧
    (role = .evaluation → Accepts w o .decryption (r.wrapped .decryption)) ∧ f = refusal o (r.wrapped role)

variable {w : KeyWrapper} {o : Owner} {role : KeyRole} {wrapped : Bytes} {r : KeyRecord} {f : Failure}

theorem kind_refusal_iff : (refusal o wrapped).kind = .custodian ↔ o.identity.utf8? ≠ none ∧ 8 ≤ wrapped.length := by
  unfold refusal
  split
  case isTrue unencodable => simp [unencodable, Failure.unencodable, Failure.kind]
  case isFalse encodable =>
    split
    case isTrue short =>
      have short : ¬ 8 ≤ wrapped.length := Nat.not_le.2 short
      simp [short, Failure.badValue, Failure.kind]
    case isFalse long =>
      have long : 8 ≤ wrapped.length := Nat.not_lt.1 long
      simp [long, encodable, Failure.kind, FieldError.kind]

/-- One of an owner's wrapped keys. -/
def openKey (w : KeyWrapper) (o : Owner) (role : KeyRole) (wrapped : Bytes) : Except Failure Bytes :=
  o.associatedData role >>= openRecord.unwrap w wrapped

theorem openRecord_eq (w : KeyWrapper) (o : Owner) (r : KeyRecord) : openRecord w o r = (do
    let privateKey ← openKey w o .decryption (r.wrapped .decryption)
    let evaluationKey ← openKey w o .evaluation (r.wrapped .evaluation)
    return { publicKey := r.publicKey, privateKey, evaluationKey, scheme := o.scheme }) := by
  unfold openRecord openKey
  simp only [bind_assoc]
  rfl

theorem openKey_of_accepts (accepts : Accepts w o role wrapped) : ∃ key, openKey w o role wrapped = .ok key := by
  obtain ⟨associated, nonce, key, bound, length, rfl⟩ := accepts
  refine ⟨key, Outcome.bind_eq_ok_iff.2 ⟨associated, bound, ?_⟩⟩
  unfold openRecord.unwrap
  rw [w.unwrap_wrapWith nonce key (some associated) length]

theorem openKey_of_not_accepts (refused : ¬ Accepts w o role wrapped) :
    openKey w o role wrapped = .error (refusal o wrapped) := by
  obtain ⟨suffix, bound⟩ := o.associatedData_eq role
  unfold openKey refusal
  cases named : o.identity.utf8? with
  | none =>
    rw [bound, named]
    rfl
  | some bs =>
    rw [named] at bound
    rw [if_neg (by simp), bound]
    show openRecord.unwrap w wrapped (bs ++ suffix) = _
    unfold openRecord.unwrap
    cases unwrapped : w.unwrap wrapped (some (bs ++ suffix)) with
    | ok key =>
      obtain ⟨nonce, length, made⟩ := KeyWrapper.unwrap_eq_ok_iff.1 unwrapped
      exact absurd ⟨bs ++ suffix, nonce, key, bound, length, made⟩ refused
    | error f =>
      obtain rfl := KeyWrapper.unwrap_eq_error unwrapped
      unfold KeyWrapper.refusal
      by_cases short : wrapped.length < KeyWrapper.leastNonceSize
      · rw [if_pos short, if_pos short]
        rfl
      · rw [if_neg short, if_neg short]

/-- A record fails to open exactly if one of its keys is not accepted, and the first of them decides how. -/
theorem openRecord_eq_error_iff : openRecord w o r = .error f ↔ Refuses w o r f := by
  rw [openRecord_eq]
  -- The keys are opened one after the other, the private key first.
  by_cases first : Accepts w o .decryption (r.wrapped .decryption)
  · obtain ⟨privateKey, opened⟩ := openKey_of_accepts first
    rw [opened]
    by_cases second : Accepts w o .evaluation (r.wrapped .evaluation)
    · obtain ⟨evaluationKey, opened⟩ := openKey_of_accepts second
      rw [opened]
      constructor
      · intro h
        cases h
      · rintro ⟨role, refused, -⟩
        cases role with
        | decryption => exact absurd first refused
        | evaluation => exact absurd second refused
    · rw [openKey_of_not_accepts second]
      constructor
      · intro h
        exact ⟨.evaluation, second, fun _ => first, (Except.error.inj h).symm⟩
      · rintro ⟨role, refused, -, rfl⟩
        cases role with
        | decryption => exact absurd first refused
        | evaluation => rfl
  · rw [openKey_of_not_accepts first]
    constructor
    · intro h
      exact ⟨.decryption, first, (fun h => by cases h), (Except.error.inj h).symm⟩
    · rintro ⟨role, -, ordered, rfl⟩
      cases role with
      | decryption => rfl
      | evaluation => exact absurd (ordered rfl) first

theorem exists_refuses (corrupt : ∃ role, ¬ Accepts w o role (r.wrapped role)) : ∃ f, Refuses w o r f := by
  by_cases first : Accepts w o .decryption (r.wrapped .decryption)
  · obtain ⟨role, refused⟩ := corrupt
    cases role with
    | decryption => exact absurd first refused
    | evaluation => exact ⟨_, .evaluation, refused, fun _ => first, rfl⟩
  · exact ⟨_, .decryption, first, (fun h => by cases h), rfl⟩

/-! ## 2. A call that nobody else disturbs -/

variable {c : Custody}

/-- A load whose owner has a record ends with its first step: it looks the record up and opens it, whatever it was
asked to do if there is none. -/
theorem step_found (answering : Answering c.custodian) (tries : 0 ≤ c.store.policy.maxRetries)
    (held : c.record? o = some r) (source : KeySource) (errand : Errand) :
    step source o errand (.lookingUp 0) c = (.finish (openRecord c.store.wrapper o r), { c with
      store := { c.store with label := "retrieve_keys" }
      custodian := { c.custodian with retrievals := c.custodian.retrievals + 1 } }) := by
  have may : c.mayTry (.lookingUp 0) = true := decide_eq_true tries
  have found : Entries.get? c.custodian.records o = some r := held
  have retrieved : c.custodian.retrieve o
      = (.ok (some r), { c.custodian with retrievals := c.custodian.retrievals + 1 }) := by
    unfold Custodian.retrieve
    rw [answering.retrievals, found]
  have labelled : c.withLabel (.lookingUp 0) = { c with store := { c.store with label := "retrieve_keys" } } := rfl
  unfold step consult
  rw [if_pos may, labelled]
  dsimp only
  rw [retrieved]
  rfl

/-- A call has started the only load there is. -/
def started (errand : Errand) (o : Owner) (c : Custody) : Custody :=
  { c with store := { c.store with
      keyCache := { (c.store.keyCache.purge c.now).2 with
        misses := c.store.keyCache.misses + 1
        nextLoad := c.store.keyCache.nextLoad + 1
        loads := [⟨c.store.keyCache.nextLoad, o, errand, [0]⟩] }
      loads := [⟨c.store.keyCache.nextLoad, o, errand, .lookingUp 0⟩] } }

/-- What is left after a call that found a record it could not open: counts, the label of the work, and fewer
expired entries. -/
def afterRefusal (c : Custody) : Custody :=
  { c with
    store := { c.store with
      label := "retrieve_keys"
      keyCache := { (c.store.keyCache.purge c.now).2 with
        misses := c.store.keyCache.misses + 1
        nextLoad := c.store.keyCache.nextLoad + 1 } }
    custodian := { c.custodian with retrievals := c.custodian.retrievals + 1 } }

theorem request_missing (quiet : c.Quiet) (missing : c.cached? o = none) (errand : Errand) :
    c.request errand o 0 = (.waits c.store.keyCache.nextLoad true, c.started errand o) := by
  have spec := Cache.request_spec c.now o errand 0 c.store.keyCache
  have starts : c.store.keyCache.request c.now o errand 0
      = (.waits c.store.keyCache.nextLoad true, (c.started errand o).store.keyCache) := by
    rw [← Prod.eta (c.store.keyCache.request c.now o errand 0)]
    generalize (c.store.keyCache.request c.now o errand 0).1 = reply at spec ⊢
    generalize (c.store.keyCache.request c.now o errand 0).2 = keyCache at spec ⊢
    cases spec with
    | refused closed =>
      rw [quiet.orderly.opened] at closed
      cases closed
    | hit _ found live value =>
      have cached : c.cached? o = some _ := (Cache.live?_of_mem quiet.orderly.tidy found live).trans value
      rw [missing] at cached
      cases cached
    | joins _ mem =>
      rw [quiet.idle.cached] at mem
      exact absurd mem List.not_mem_nil
    | starts =>
      rw [quiet.idle.cached]
      rfl
  unfold request
  rw [starts, quiet.idle.loads]
  rfl

theorem advance_started (quiet : c.Quiet) (tries : 0 ≤ c.store.policy.maxRetries) (held : c.record? o = some r)
    (refused : openRecord c.store.wrapper o r = .error f) (source : KeySource) (errand : Errand) :
    advance source ⟨c.store.keyCache.nextLoad, o, errand, .lookingUp 0⟩ (c.started errand o)
      = ([(0, .error f)], c.afterRefusal) := by
  have answering : Answering (c.started errand o).custodian := quiet.answering
  have stepped := step_found answering tries held source errand
  have refused : openRecord (c.started errand o).store.wrapper o r = .error f := refused
  rw [refused] at stepped
  unfold advance
  rw [stepped]
  -- The load was the only one, and it leaves nothing in the cache.
  simp [settle, started, afterRefusal, Cache.complete, Cache.purge, Except.map, quiet.idle.cached, quiet.idle.loads]

/-- Whatever it asks for, a call that finds nothing cached and a record that does not open is told why it does not,
and leaves all as it was. -/
theorem ask_refused (quiet : c.Quiet) (missing : c.cached? o = none) (tries : 0 ≤ c.store.policy.maxRetries)
    (held : c.record? o = some r) (refused : openRecord c.store.wrapper o r = .error f) (source : KeySource)
    (errand : Errand) : ask source errand o c = (.error f, c.afterRefusal) := by
  have advanced := advance_started quiet tries held refused source errand
  have found : (c.started errand o).store.loads.find? (·.id = c.store.keyCache.nextLoad)
      = some ⟨c.store.keyCache.nextLoad, o, errand, .lookingUp 0⟩ := by simp [started]
  have gone : ∀ m ∈ c.afterRefusal.store.loads, m.id ≠ c.store.keyCache.nextLoad := by
    have idle : c.afterRefusal.store.loads = [] := quiet.idle.loads
    simp [idle]
  have finished (steps : Nat) : finish source c.store.keyCache.nextLoad (steps + 1) (c.started errand o)
      = ([(0, .error f)], c.afterRefusal) := by
    rw [finish, found]
    dsimp only
    rw [advanced, finish_of_gone gone]
    rfl
  unfold ask
  rw [request_missing quiet missing errand]
  dsimp only [Cache.Reply.started?, Option.toList, finishAll]
  rw [maxSteps, finished]
  rfl

end Custody

end SealedFields
