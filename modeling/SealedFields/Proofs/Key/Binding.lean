import SealedFields.Proofs.Key.OnePair
import SealedFields.Proofs.Key.Tampering

/-!
# Wrapped keys and whom they belong to

The data that a wrapped key is bound to is an owner's name, followed by one of eight markings. It is read from its end:
no marking ends another one, so that it belongs to one owner and one role, whatever names contain.

Here a key store notes each use it makes of the cipher, while its custodian does what it likes. A wrapped key and the
data it was wrapped with meet again only where the same key of the same owner is loaded.
-/

namespace SealedFields

/-! ## 1. Reading the data from its end -/

namespace Owner

variable {o o' : Owner} {role role' : KeyRole} {associated : Bytes}

/-- What follows the name. -/
def marking (scheme : Scheme) (role : KeyRole) : Text := "|" ++ (scheme.tag ++ ("|" ++ (role.name : Text)))

theorem eq_of_marking_suffix {scheme scheme' : Scheme}
    (h : marking scheme role <:+ marking scheme' role') : scheme = scheme' ∧ role = role' := by
  -- There are eight markings to compare with eight.
  revert h
  cases scheme <;> cases scheme' <;> cases role <;> cases role' <;> decide

theorem associatedData_eq_ok_iff :
    o.associatedData role = .ok associated ↔ (o.identity ++ marking o.scheme role).utf8? = some associated := by
  unfold associatedData marking
  rw [List.append_assoc, List.append_assoc, List.append_assoc]
  split
  case h_1 bs encoded => rw [encoded, Except.ok.injEq, Option.some.injEq]
  case h_2 encoded => simp [encoded]

theorem associatedData_injective (h : o.associatedData role = .ok associated)
    (h' : o'.associatedData role' = .ok associated) : o = o' ∧ role = role' := by
  have same : o.identity ++ marking o.scheme role = o'.identity ++ marking o'.scheme role' :=
    Text.utf8?_inj (associatedData_eq_ok_iff.1 h) (associatedData_eq_ok_iff.1 h')
  -- Both markings end the same text, and so the shorter one ends the longer one.
  have first : marking o.scheme role <:+ o.identity ++ marking o.scheme role := List.suffix_append _ _
  have second : marking o'.scheme role' <:+ o.identity ++ marking o.scheme role :=
    same ▸ List.suffix_append _ _
  have markings : o.scheme = o'.scheme ∧ role = role' := by
    rcases List.suffix_or_suffix_of_suffix first second with ends | ends
    · exact eq_of_marking_suffix ends
    · exact (eq_of_marking_suffix ends).imp Eq.symm Eq.symm
  obtain ⟨scheme_eq, role_eq⟩ := markings
  rw [scheme_eq, role_eq] at same
  obtain ⟨identity, scheme⟩ := o
  obtain ⟨identity', scheme'⟩ := o'
  obtain rfl : scheme = scheme' := scheme_eq
  obtain rfl : identity = identity' := List.append_cancel_right same
  exact ⟨rfl, role_eq⟩

end Owner

/-! ## 2. Uses of the cipher -/

/-- A use of the cipher: which key of whom, its wrapped form, and the data that binds it. -/
structure CipherUse where
  owner : Owner
  role : KeyRole
  wrapped : Bytes
  associated : Bytes

namespace CipherUse

def Bound (u : CipherUse) : Prop := u.owner.associatedData u.role = .ok u.associated

theorem Bound.associated_eq_iff {u v : CipherUse} (hu : u.Bound) (hv : v.Bound) :
    u.associated = v.associated ↔ u.owner = v.owner ∧ u.role = v.role := by
  constructor
  · intro same
    exact Owner.associatedData_injective (hu.trans (congrArg Except.ok same)) hv
  · rintro ⟨owner_eq, role_eq⟩
    have bound : v.owner.associatedData v.role = .ok u.associated := owner_eq ▸ role_eq ▸ hu
    exact Except.ok.inj (bound.symm.trans hv)

end CipherUse

structure Journal where
  wraps : List CipherUse
  unwraps : List CipherUse

namespace Journal

def empty : Journal := ⟨[], []⟩

def append (j more : Journal) : Journal := ⟨j.wraps ++ more.wraps, j.unwraps ++ more.unwraps⟩

structure Bound (j : Journal) : Prop where
  wraps : ∀ u ∈ j.wraps, u.Bound
  unwraps : ∀ u ∈ j.unwraps, u.Bound

theorem bound_empty : empty.Bound := ⟨fun _ h => absurd h List.not_mem_nil, fun _ h => absurd h List.not_mem_nil⟩

theorem append_empty (j : Journal) : j.append empty = j := by simp [append, empty]

theorem append_assoc (j more further : Journal) :
    (j.append more).append further = j.append (more.append further) := by simp [append]

theorem Bound.append {j more : Journal} (h : j.Bound) (h' : more.Bound) : (j.append more).Bound where
  wraps u hu := (List.mem_append.1 hu).elim (h.wraps u) (h'.wraps u)
  unwraps u hu := (List.mem_append.1 hu).elim (h.unwraps u) (h'.unwraps u)

end Journal

/-- Work that comes to `a` and notes bound uses only, the same whatever was noted before. -/
def Notes {α : Type} (work : StateM Journal α) (a : α) : Prop :=
  ∃ more : Journal, more.Bound ∧ ∀ j, work j = (a, j.append more)

namespace Notes

variable {α β : Type} {work : StateM Journal α} {next : α → StateM Journal β} {a : α} {b : β}

theorem pure (a : α) : Notes (Pure.pure a) a := ⟨.empty, Journal.bound_empty, fun j => by rw [j.append_empty]; rfl⟩

theorem bind (h : Notes work a) (h' : Notes (next a) b) : Notes (work >>= next) b := by
  obtain ⟨more, bound, noted⟩ := h
  obtain ⟨further, bound', noted'⟩ := h'
  refine ⟨more.append further, bound.append bound', fun j => ?_⟩
  show next (work j).1 (work j).2 = _
  rw [noted, noted', Journal.append_assoc]

/-- What was noted stays noted. -/
theorem mem_unwraps_bind {u : CipherUse} {j : Journal} (used : u ∈ (work j).2.unwraps)
    (rest : ∀ a, ∃ b, Notes (next a) b) : u ∈ ((work >>= next) j).2.unwraps := by
  obtain ⟨b, more, -, noted⟩ := rest (work j).1
  show u ∈ (next (work j).1 (work j).2).2.unwraps
  rw [noted]
  exact List.mem_append_left _ used

end Notes

/-! ## 3. The key store with its uses noted -/

namespace Custody

def noteWrap (u : CipherUse) : StateM Journal Unit := modify fun j => { j with wraps := j.wraps ++ [u] }

def noteUnwrap (u : CipherUse) : StateM Journal Unit := modify fun j => { j with unwraps := j.unwraps ++ [u] }

theorem notes_noteWrap {u : CipherUse} (bound : u.Bound) : Notes (noteWrap u) () := by
  refine ⟨⟨[u], []⟩, ⟨?_, fun _ h => absurd h List.not_mem_nil⟩, fun j => ?_⟩
  · exact fun v hv => List.mem_singleton.1 hv ▸ bound
  · rw [Journal.append, List.append_nil]
    rfl

theorem notes_noteUnwrap {u : CipherUse} (bound : u.Bound) : Notes (noteUnwrap u) () := by
  refine ⟨⟨[], [u]⟩, ⟨fun _ h => absurd h List.not_mem_nil, ?_⟩, fun j => ?_⟩
  · exact fun v hv => List.mem_singleton.1 hv ▸ bound
  · rw [Journal.append, List.append_nil]
    rfl

def openKeyNoted (w : KeyWrapper) (o : Owner) (role : KeyRole) (wrapped : Bytes) :
    StateM Journal (Except Failure Bytes) :=
  match o.associatedData role with
  | .error f => return .error f
  | .ok associated => do
    noteUnwrap ⟨o, role, wrapped, associated⟩
    return openRecord.unwrap w wrapped associated

def openRecordNoted (w : KeyWrapper) (o : Owner) (r : KeyRecord) : StateM Journal (Except Failure KeyPair) := do
  match ← openKeyNoted w o .decryption (r.wrapped .decryption) with
  | .error f => return .error f
  | .ok privateKey =>
    match ← openKeyNoted w o .evaluation (r.wrapped .evaluation) with
    | .error f => return .error f
    | .ok evaluationKey =>
      return .ok { publicKey := r.publicKey, privateKey, evaluationKey, scheme := o.scheme }

def wrapNoted (w : KeyWrapper) (o : Owner) (role : KeyRole) (key associated : Bytes) (entropy : Entropy) :
    StateM Journal (Bytes × Entropy) := do
  let (wrapped, entropy) := w.wrap key (some associated) entropy
  noteWrap ⟨o, role, wrapped, associated⟩
  return (wrapped, entropy)

def closeRecordNoted (w : KeyWrapper) (o : Owner) (keys : KeyPair) (entropy : Entropy) :
    StateM Journal (Except Failure KeyRecord × Entropy) :=
  match o.associatedData .decryption, o.associatedData .evaluation with
  | .ok forDecryption, .ok forEvaluation => do
    let (wrappedPrivateKey, entropy) ← wrapNoted w o .decryption keys.privateKey forDecryption entropy
    let (wrappedEvaluationKey, entropy) ← wrapNoted w o .evaluation keys.evaluationKey forEvaluation entropy
    return (.ok ⟨o, keys.publicKey, wrappedPrivateKey, wrappedEvaluationKey⟩, entropy)
  | .error f, _ | _, .error f => return (.error f, entropy)

def makeKeysNoted (source : KeySource) (o : Owner) (c : Custody) : StateM Journal (Next × Custody) :=
  match source.generate o.scheme c.entropy with
  | (.error f, entropy) => return (.finish (.error f), { c with entropy })
  | (.ok keys, entropy) => do
    match ← closeRecordNoted c.store.wrapper o keys entropy with
    | (.error f, entropy) => return (.finish (.error f), { c with entropy })
    | (.ok record, entropy) => return (.go (.storing 0 keys record), { c with entropy })

/-- Records are opened, and keys are wrapped, when the answer to a lookup arrives. -/
def resumeNoted (source : KeySource) (o : Owner) (errand : Errand) (phase : Phase) (answer : CustodianAnswer)
    (c : Custody) : StateM Journal (Next × Custody) :=
  match phase, answer, errand with
  | .lookingUp _, .found (.ok (some record)), _ => do
    return (.finish (← openRecordNoted c.store.wrapper o record), c)
  | .lookingUp _, .found (.ok none), .create => makeKeysNoted source o c
  | phase, answer, errand => return resume source o errand phase answer c

section

variable (w : KeyWrapper) (o : Owner)

theorem notes_openKeyNoted (role : KeyRole) (wrapped : Bytes) :
    Notes (openKeyNoted w o role wrapped) (openKey w o role wrapped) := by
  unfold openKeyNoted openKey
  cases bound : o.associatedData role with
  | error f => exact .pure _
  | ok associated =>
    have use : CipherUse.Bound ⟨o, role, wrapped, associated⟩ := bound
    exact (notes_noteUnwrap use).bind (.pure _)

theorem notes_openRecordNoted (r : KeyRecord) : Notes (openRecordNoted w o r) (openRecord w o r) := by
  rw [openRecord_eq]
  unfold openRecordNoted
  refine (notes_openKeyNoted w o .decryption (r.wrapped .decryption)).bind ?_
  -- The evaluation key is only looked at if the private key could be unwrapped.
  cases openKey w o .decryption (r.wrapped .decryption) with
  | error f => exact .pure _
  | ok privateKey =>
    refine (notes_openKeyNoted w o .evaluation (r.wrapped .evaluation)).bind ?_
    cases openKey w o .evaluation (r.wrapped .evaluation) with
    | error f => exact .pure _
    | ok evaluationKey => exact .pure _

/-- The private key is unwrapped in any case. -/
theorem mem_unwraps_openRecordNoted (r : KeyRecord) {associated : Bytes}
    (bound : o.associatedData .decryption = .ok associated) (j : Journal) :
    ⟨o, .decryption, r.wrapped .decryption, associated⟩ ∈ (openRecordNoted w o r j).2.unwraps := by
  have used : ⟨o, .decryption, r.wrapped .decryption, associated⟩
      ∈ (openKeyNoted w o .decryption (r.wrapped .decryption) j).2.unwraps := by
    unfold openKeyNoted
    rw [bound]
    exact List.mem_append_right _ (List.mem_singleton_self _)
  refine Notes.mem_unwraps_bind used fun result => ?_
  cases result with
  | error f => exact ⟨_, .pure _⟩
  | ok privateKey =>
    have evaluation := notes_openKeyNoted w o .evaluation (r.wrapped .evaluation)
    cases opened : openKey w o .evaluation (r.wrapped .evaluation) with
    | error f => exact ⟨_, (opened ▸ evaluation).bind (.pure _)⟩
    | ok evaluationKey => exact ⟨_, (opened ▸ evaluation).bind (.pure _)⟩

theorem notes_wrapNoted {role : KeyRole} {associated : Bytes} (bound : o.associatedData role = .ok associated)
    (key : Bytes) (entropy : Entropy) :
    Notes (wrapNoted w o role key associated entropy) (w.wrap key (some associated) entropy) := by
  have use : CipherUse.Bound ⟨o, role, (w.wrap key (some associated) entropy).1, associated⟩ := bound
  exact (notes_noteWrap use).bind (.pure _)

theorem notes_closeRecordNoted (keys : KeyPair) (entropy : Entropy) :
    Notes (closeRecordNoted w o keys entropy) (closeRecord w o keys entropy) := by
  unfold closeRecordNoted closeRecord
  cases decryption : o.associatedData .decryption with
  | error f => exact .pure _
  | ok forDecryption =>
    cases evaluation : o.associatedData .evaluation with
    | error f => exact .pure _
    | ok forEvaluation =>
      exact (notes_wrapNoted w o decryption keys.privateKey entropy).bind
        ((notes_wrapNoted w o evaluation keys.evaluationKey _).bind (.pure _))

end

theorem notes_makeKeysNoted (source : KeySource) (o : Owner) (c : Custody) :
    Notes (makeKeysNoted source o c) (makeKeys source o c) := by
  unfold makeKeysNoted makeKeys
  rcases source.generate o.scheme c.entropy with ⟨_ | keys, entropy⟩
  · exact .pure _
  · refine (notes_closeRecordNoted c.store.wrapper o keys entropy).bind ?_
    dsimp only
    rcases closeRecord c.store.wrapper o keys entropy with ⟨_ | record, entropy⟩
    · exact .pure _
    · exact .pure _

theorem notes_resumeNoted (source : KeySource) (o : Owner) (errand : Errand) (phase : Phase)
    (answer : CustodianAnswer) (c : Custody) :
    Notes (resumeNoted source o errand phase answer c) (resume source o errand phase answer c) := by
  unfold resumeNoted
  split
  case h_1 n record => exact (notes_openRecordNoted c.store.wrapper o record).bind (.pure _)
  case h_2 n => exact notes_makeKeysNoted source o c
  case h_3 => exact .pure _

/-! ## 4. Histories with a custodian that is not trusted -/

namespace Untrusted

/-- What can happen: what happens to any key store, and anything at all that the custodian does to its records. -/
inductive Event where
  | own (e : Custody.Event)
  | tamper (change : Custodian → Custodian)

def step (source : KeySource) (s : Session) : Event → Session
  | .own e => s.step source e
  | .tamper change => { s with custody := { s.custody with custodian := change s.custody.custodian } }

/-- A key store after a history, the latest event first. -/
def after (source : KeySource) (c : Custody) : List Event → Session
  | [] => ⟨c, [], [], []⟩
  | e :: earlier => step source (after source c earlier) e

def stepNoted (source : KeySource) (s : Session) : Event → StateM Journal Session
  | .own (.resume id) =>
    match s.custody.store.loads.find? (·.id = id), Entries.get? s.pending id with
    | some l, some answer => do
      let (next, custody) ← resumeNoted source l.owner l.errand l.phase answer s.custody
      return { s with custody, pending := Entries.erase s.pending id }.settle l next
    | _, _ => return s
  | e => return step source s e

def afterNoted (source : KeySource) (c : Custody) : List Event → StateM Journal Session
  | [] => return ⟨c, [], [], []⟩
  | e :: earlier => do stepNoted source (← afterNoted source c earlier) e

theorem afterNoted_cons (source : KeySource) (c : Custody) (e : Event) (earlier : List Event) (j : Journal) :
    afterNoted source c (e :: earlier) j
      = stepNoted source (afterNoted source c earlier j).1 e (afterNoted source c earlier j).2 := rfl

theorem notes_stepNoted (source : KeySource) (s : Session) (e : Event) :
    Notes (stepNoted source s e) (step source s e) := by
  unfold stepNoted
  split
  case h_1 id =>
    dsimp only [step, Session.step]
    -- Nothing happens unless the load is under way and its answer has arrived.
    cases s.custody.store.loads.find? (·.id = id) with
    | none => exact .pure _
    | some l =>
      cases Entries.get? s.pending id with
      | none => exact .pure _
      | some answer => exact (notes_resumeNoted source l.owner l.errand l.phase answer s.custody).bind (.pure _)
  case h_2 => exact .pure _

/-- A record that a lookup has found is unwrapped for the owner that is looked up. -/
theorem mem_unwraps_stepNoted (source : KeySource) {s : Session} {l : KeyLoad} {n : Nat} {r : KeyRecord}
    {associated : Bytes} (found : s.custody.store.loads.find? (·.id = l.id) = some l) (phase : l.phase = .lookingUp n)
    (pending : Entries.get? s.pending l.id = some (.found (.ok (some r))))
    (bound : l.owner.associatedData .decryption = .ok associated) (j : Journal) :
    ⟨l.owner, .decryption, r.wrapped .decryption, associated⟩
      ∈ (stepNoted source s (.own (.resume l.id)) j).2.unwraps := by
  unfold stepNoted
  dsimp only
  rw [found, pending]
  dsimp only
  rw [phase]
  have opened := mem_unwraps_openRecordNoted s.custody.store.wrapper l.owner r bound j
  exact Notes.mem_unwraps_bind (Notes.mem_unwraps_bind opened fun _ => ⟨_, .pure _⟩) fun _ => ⟨_, .pure _⟩

theorem notes_afterNoted (source : KeySource) (c : Custody) (history : List Event) :
    Notes (afterNoted source c history) (after source c history) := by
  -- Induction on the history, whose latest event comes first.
  induction history with
  | nil => exact .pure _
  | cons e earlier ih => exact ih.bind (notes_stepNoted source _ e)

/-- Wrapped keys are not confused between owners. The data they are bound to is the same for the same identity, scheme
and role only. Whatever records a custodian hands back, the history of a key store is that of one that notes its uses of
the cipher; and whatever it unwraps, be it bytes that it has wrapped before, it does so under the data of that earlier
use exactly if it is loading the same key of the same owner. -/
theorem wrapped_keys_not_confused (source : KeySource) (c : Custody) (history : List Event) :
    (∀ (o o' : Owner) (role role' : KeyRole) (associated : Bytes),
      o.associatedData role = .ok associated → o'.associatedData role' = .ok associated →
        o.identity = o'.identity ∧ o.scheme = o'.scheme ∧ role = role') ∧
    ∃ journal, afterNoted source c history .empty = (after source c history, journal) ∧
      ∀ made ∈ journal.wraps, ∀ use ∈ journal.unwraps,
        use.associated = made.associated ↔ use.owner = made.owner ∧ use.role = made.role := by
  refine ⟨?_, ?_⟩
  · intro o o' role role' associated h h'
    obtain ⟨rfl, rfl⟩ := Owner.associatedData_injective h h'
    exact ⟨rfl, rfl, rfl⟩
  · obtain ⟨journal, bound, noted⟩ := notes_afterNoted source c history
    refine ⟨journal, noted .empty, fun made hm use hu => ?_⟩
    exact (bound.unwraps use hu).associated_eq_iff (bound.wraps made hm)

/-- A name that ends like the data of another name's private key. -/
def lookalike : Owner := ⟨"0xab|bfv|private", .bfv⟩

/-- Keys are made for the lookalike, the custodian changes its records, and a lookup of the plain name is consulted. -/
def swapped (change : Custodian → Custodian) : List Event :=
  [.own (.consult 1), .own (.request .lookup ⟨"0xab", .bfv⟩), .tamper change, .own (.resume 0), .own (.consult 0),
    .own (.request .create lookalike)]

theorem wrapped_keys_not_confused_swapped :
    ∃ change journal, afterNoted .standard Session.fresh (.own (.resume 1) :: swapped change) .empty
        = (after .standard Session.fresh (.own (.resume 1) :: swapped change), journal) ∧
      ∃ made ∈ journal.wraps, ∃ use ∈ journal.unwraps, made.owner = lookalike ∧ use.owner = ⟨"0xab", .bfv⟩ ∧
        use.wrapped = made.wrapped ∧ use.associated ≠ made.associated := by
  obtain ⟨made, other, wraps, owner_eq⟩ : ∃ made other,
      (∀ change, (afterNoted .standard Session.fresh (swapped change) .empty).2.wraps = [made, other]) ∧
      made.owner = lookalike := ⟨_, _, fun _ => rfl, rfl⟩
  -- The custodian answers the lookup with a record of what was wrapped for the lookalike.
  let r : KeyRecord := ⟨⟨"0xab", .bfv⟩, [], made.wrapped, other.wrapped⟩
  let change (c : Custodian) : Custodian := { c with records := [(⟨"0xab", .bfv⟩, r)] }
  obtain ⟨l, loading, looking, plain, pending⟩ : ∃ l : KeyLoad,
      (after .standard Session.fresh (swapped change)).custody.store.loads.find? (·.id = l.id) = some l ∧
      (l.id = 1 ∧ l.phase = .lookingUp 0) ∧ l.owner = ⟨"0xab", .bfv⟩ ∧
      Entries.get? (after .standard Session.fresh (swapped change)).pending l.id = some (.found (.ok (some r))) :=
    ⟨⟨1, ⟨"0xab", .bfv⟩, .lookup, .lookingUp 0⟩, rfl, ⟨rfl, rfl⟩, rfl, rfl⟩
  obtain ⟨associated, bound⟩ : ∃ associated, l.owner.associatedData .decryption = .ok associated :=
    plain ▸ ⟨_, rfl⟩
  obtain ⟨-, journal, noted, apart⟩ := wrapped_keys_not_confused .standard Session.fresh
    (.own (.resume 1) :: swapped change)
  obtain ⟨earlier, -, before⟩ := notes_afterNoted .standard Session.fresh (swapped change)
  obtain ⟨last, -, opened⟩ := notes_stepNoted .standard (after .standard Session.fresh (swapped change))
    (.own (.resume 1))
  have journal_eq : (Journal.empty.append earlier).append last = journal := by
    have latest := (afterNoted_cons ..).symm.trans noted
    rw [before, opened] at latest
    exact (Prod.mk.inj latest).2
  have used := mem_unwraps_stepNoted .standard loading looking.2 pending bound (Journal.empty.append earlier)
  rw [looking.1, opened, journal_eq] at used
  have made_mem : made ∈ journal.wraps := by
    have wraps := wraps change
    rw [before] at wraps
    rw [← journal_eq, Journal.append, wraps]
    exact List.mem_cons_self
  refine ⟨change, journal, noted, made, made_mem, _, used, owner_eq, plain, rfl, fun same => ?_⟩
  have lookalike_eq : (⟨"0xab", .bfv⟩ : Owner) = lookalike :=
    plain.symm.trans ((((apart made made_mem _ used).1 same).1).trans owner_eq)
  exact absurd lookalike_eq (by decide)

end Untrusted

end Custody

end SealedFields
