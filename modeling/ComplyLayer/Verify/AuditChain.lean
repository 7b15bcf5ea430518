import ComplyLayer.Audit.Writer
import ComplyLayer.Theory.HashChain
import ComplyLayer.Theory.Runs

/-!
# When an audit chain verifies

The writer takes the last record by `(recorded_at, id)` for the tail and the verifier walks the
records in that order, while clocks and ids are the workers' own. A tenant's chain verifies after
every run in which each of the tenant's calls puts its record after those already there, and
writes what reads back as it was hashed (`verify_of_settled`); `tie_breaks_chain` is a run with one
clock reading twice.
-/

namespace ComplyLayer

open Theory

/-! ## What the verifier checks -/

/-- The walk comes to its end exactly when every link and every hash is right. -/
theorem verifyChainFrom_ok_iff {rt : AuditRuntime} :
    (verifyChainFrom rt expectedPrev index records).ok = true ↔
      Linked (·.prevHash) AuditRecord.hash expectedPrev records ∧
        ∀ record ∈ records, computeHash rt record.toAuditFields = record.hash := by
  induction records generalizing expectedPrev index with
  | nil => simp [verifyChainFrom, Linked]
  | cons record rest ih =>
    rw [verifyChainFrom, Linked, List.forall_mem_cons]
    split
    · rename_i hprev
      exact iff_of_false (by simp) fun h => hprev h.1.1
    · rename_i hprev
      split
      · rename_i hhash
        exact iff_of_false (by simp) fun h => hhash h.2.1
      · rename_i hhash
        rw [ih]
        exact ⟨fun h => ⟨⟨not_not.mp hprev, h.1⟩, not_not.mp hhash, h.2⟩,
          fun h => ⟨h.1.2, h.2.2⟩⟩

/-- A walk that comes to its end has checked every record. -/
theorem verifyChainFrom_eq {rt : AuditRuntime}
    (h : (verifyChainFrom rt expectedPrev index records).ok = true) :
    verifyChainFrom rt expectedPrev index records =
      { ok := true, checked := index + records.length } := by
  induction records generalizing expectedPrev index with
  | nil => rfl
  | cons record rest ih =>
    rw [verifyChainFrom] at h ⊢
    split at h
    · cases h
    · rename_i hprev
      split at h
      · cases h
      · rename_i hhash
        rw [if_neg hprev, if_neg hhash, ih h, List.length_cons, Nat.add_right_comm, Nat.add_assoc]

/-! ## What an append writes -/

namespace AuditCall

/-- What the call appends. -/
def args : AuditCall → AppendArgs
  | append args _ => args
  | correct args _ => args.toAppend

def draws : AuditCall → AuditDraws
  | append _ draws | correct _ draws => draws

end AuditCall

theorem AuditDb.step_eq (rt : AuditRuntime) (db : AuditDb) (call : AuditCall) :
    db.step rt call = some ((db.append rt call.args call.draws).getD db) := by
  cases call <;> rfl

/-- Of what it is given, a row changes only the documents and the moment. -/
theorem AuditRuntime.stored_eq_some {rt : AuditRuntime} (h : rt.stored record = some row) :
    ∃ actor subject payload, rt.jsonb record.actor = some actor ∧
      rt.jsonb record.subject = some subject ∧ rt.jsonb record.payload = some payload ∧
      row = { record with
        occurredAt := record.occurredAt.timestamptz, actor := actor, subject := subject,
        payload := payload } := by
  unfold stored at h
  obtain ⟨actor, hactor, h⟩ := Option.bind_eq_some_iff.mp h
  obtain ⟨subject, hsubject, h⟩ := Option.bind_eq_some_iff.mp h
  obtain ⟨payload, hpayload, h⟩ := Option.bind_eq_some_iff.mp h
  split at h
  · cases h
    exact ⟨actor, subject, payload, hactor, hsubject, hpayload, rfl⟩
  · cases h

theorem AuditDb.append_eq_some {rt : AuditRuntime} {db : AuditDb}
    (h : db.append rt args draws = some db') :
    ∃ row, rt.stored (db.draft rt args draws) = some row ∧ row.id ∉ db.records.map (·.id) ∧
      db' = { db with records := db.records ++ [row] } := by
  unfold append at h
  obtain ⟨row, hrow, h⟩ := Option.bind_eq_some_iff.mp h
  split at h
  · cases h
  · rename_i hcolumns
    cases h
    exact ⟨row, hrow, fun hid => hcolumns (.inl hid), rfl⟩

/-! ## Chains that verify -/

/-- The call's record comes after those of its tenant, and reads back as it was hashed. -/
structure AuditCall.Settles (rt : AuditRuntime) (db : AuditDb) (call : AuditCall) : Prop where
  later : ∀ record ∈ db.recordsOf call.args.tenantId,
    record.position < toLex (call.draws.recordedAt, newAuditId call.draws.hex)
  readsBack : ∀ row, rt.stored (db.draft rt call.args call.draws) = some row →
    canonicalPayload rt row.toAuditFields =
      canonicalPayload rt (db.draft rt call.args call.draws).toAuditFields

/-- A tenant's records in the order of writing: each after the one before it, naming its hash, and
with the hash of what it holds. -/
structure Honest (rt : AuditRuntime) (records : List AuditRecord) : Prop where
  ordered : records.Pairwise fun r r' => r.position < r'.position
  linked : Linked (·.prevHash) AuditRecord.hash genesis records
  hashed : ∀ record ∈ records, computeHash rt record.toAuditFields = record.hash

namespace AuditDb

variable {rt : AuditRuntime} {db : AuditDb}

theorem inOrder_eq (h : Honest rt (db.recordsOf tenantId)) :
    db.inOrder tenantId = db.recordsOf tenantId :=
  sortBy_eq_self (h.ordered.imp le_of_lt)

theorem draft_prevHash (h : Honest rt (db.recordsOf args.tenantId)) (draws : AuditDraws) :
    (db.draft rt args draws).prevHash =
      lastHash AuditRecord.hash genesis (db.recordsOf args.tenantId) := by
  change (db.tail args.tenantId).elim genesis AuditRecord.hash = _
  rw [tail, head?_sortBy_toDual h.ordered, lastHash]

/-- A call that settles keeps the chain of its tenant honest. -/
theorem honest_append {call : AuditCall} (h : Honest rt (db.recordsOf call.args.tenantId))
    (hsettles : call.Settles rt db)
    (hrow : rt.stored (db.draft rt call.args call.draws) = some row) :
    Honest rt (db.recordsOf call.args.tenantId ++ [row]) := by
  have hreads := hsettles.readsBack row hrow
  obtain ⟨actor, subject, payload, -, -, -, rfl⟩ := AuditRuntime.stored_eq_some hrow
  refine ⟨?_, ?_, ?_⟩
  · rw [List.pairwise_append]
    refine ⟨h.ordered, List.pairwise_singleton _ _, fun r hr r' hr' => ?_⟩
    cases List.mem_singleton.mp hr'
    exact hsettles.later r hr
  · rw [linked_concat]
    exact ⟨h.linked, draft_prevHash h call.draws⟩
  · rw [List.forall_mem_append]
    refine ⟨h.hashed, List.forall_mem_singleton.mpr ?_⟩
    rw [computeHash, hreads]
    rfl

/-- The tenant's chain is honest. -/
def HonestFor (rt : AuditRuntime) (tenantId : String) (db : AuditDb) : Prop :=
  Honest rt (db.recordsOf tenantId)

/-- The records of a tenant after a step. -/
theorem recordsOf_append (hrow : rt.stored (db.draft rt args draws) = some row) :
    recordsOf { db with records := db.records ++ [row] } tenantId =
      if args.tenantId = tenantId then db.recordsOf tenantId ++ [row] else db.recordsOf tenantId := by
  have htenant : row.tenantId = args.tenantId := by
    obtain ⟨actor, subject, payload, -, -, -, rfl⟩ := AuditRuntime.stored_eq_some hrow
    rfl
  rw [recordsOf, List.filter_append, List.filter_singleton, htenant]
  by_cases h : args.tenantId = tenantId
  · rw [if_pos h, decide_eq_true h]
    rfl
  · rw [if_neg h, decide_eq_false h]
    exact List.append_nil _

theorem honestFor_step {call : AuditCall} (h : db.HonestFor rt tenantId)
    (hsettles : call.args.tenantId = tenantId → call.Settles rt db)
    (hstep : db.step rt call = some db') : db'.HonestFor rt tenantId := by
  rw [step_eq] at hstep
  cases hstep
  cases happend : db.append rt call.args call.draws with
  | none => exact h
  | some db' =>
    obtain ⟨row, hrow, -, rfl⟩ := append_eq_some happend
    rw [Option.getD_some, HonestFor, recordsOf_append hrow]
    split
    · rename_i heq
      subst heq
      exact honest_append h (hsettles rfl) hrow
    · exact h

end AuditDb

/-- A tenant's chain verifies, over all its records, after every run whose calls for the tenant
settle. -/
theorem verify_of_settled {rt : AuditRuntime} {tenantId : String}
    (hrun : run (AuditDb.step rt) { tenants := tenants } calls = some db)
    (hsettles : Along (AuditDb.step rt)
      (fun db call => call.args.tenantId = tenantId → call.Settles rt db)
      { tenants := tenants } calls) :
    db.verify rt tenantId = { ok := true, checked := (db.recordsOf tenantId).length } ∧
      Linked (·.prevHash) AuditRecord.hash genesis (db.inOrder tenantId) := by
  have hstart : AuditDb.HonestFor rt tenantId { tenants := tenants } := ⟨.nil, trivial, nofun⟩
  have hhonest : db.HonestFor rt tenantId :=
    hsettles.invariant (fun _ _ _ => AuditDb.honestFor_step) hstart hrun
  have horder := AuditDb.inOrder_eq hhonest
  rw [AuditDb.verify, horder]
  refine ⟨?_, hhonest.linked⟩
  have hok : (verifyChain rt (db.recordsOf tenantId)).ok = true :=
    verifyChainFrom_ok_iff.mpr ⟨hhonest.linked, hhonest.hashed⟩
  rw [verifyChain, verifyChainFrom_eq hok, Nat.zero_add]

/-! ## A clock that reads the same twice -/

/-- A runtime whose digest of a document is its record and what that follows. -/
def plainAudit : AuditRuntime where
  sha256 text := text
  dumps document :=
    match document.lookup "id", document.lookup "prev_hash" with
    | some (.str id), some (.str prevHash) => id ++ "<" ++ prevHash
    | _, _ => ""
  isoformat _ := "1970-01-01T00:00:00+00:00"
  jsonb document := some document

def activated : AppendArgs :=
  { tenantId := "tnt_audit", eventType := "rule.activated", actor := ∅, subject := ∅ }

/-- Two activations of one tenant, the second recorded at the given moment with a smaller id. -/
def twoActivations (recordedAt : Int) : List AuditCall :=
  [.append activated ⟨0, "b0", 5⟩, .append activated ⟨0, "a0", recordedAt⟩]

theorem verify_of_settled_later :
    ∃ db, run (AuditDb.step plainAudit) { tenants := ["tnt_audit"] } (twoActivations 6) = some db ∧
      db.verify plainAudit "tnt_audit" =
        { ok := true, checked := (db.recordsOf "tnt_audit").length } ∧
      Linked (·.prevHash) AuditRecord.hash genesis (db.inOrder "tnt_audit") := by
  have hrun : ∃ db, run (AuditDb.step plainAudit) { tenants := ["tnt_audit"] }
      (twoActivations 6) = some db := ⟨_, rfl⟩
  obtain ⟨db, hrun⟩ := hrun
  refine ⟨db, hrun, verify_of_settled hrun ?_⟩
  have hread : ∀ (db : AuditDb) (draws : AuditDraws) (row : AuditRecord),
      plainAudit.stored (db.draft plainAudit activated draws) = some row →
        canonicalPayload plainAudit row.toAuditFields =
          canonicalPayload plainAudit (db.draft plainAudit activated draws).toAuditFields := by
    intro db draws row hrow
    obtain ⟨_, _, _, hactor, hsubject, hpayload, rfl⟩ := AuditRuntime.stored_eq_some hrow
    cases hactor
    cases hsubject
    cases hpayload
    rfl
  refine ⟨fun _ => ⟨nofun, hread _ _⟩, fun db hfirst => ⟨fun _ => ⟨?_, hread _ _⟩, fun _ _ => trivial⟩⟩
  cases hfirst
  decide +kernel

/-- Two appends in one microsecond, the second with the smaller id. -/
theorem tie_breaks_chain :
    ∃ db, run (AuditDb.step plainAudit) { tenants := ["tnt_audit"] } (twoActivations 5) = some db ∧
      (db.verify plainAudit "tnt_audit").ok = false := by
  refine ⟨_, rfl, ?_⟩
  decide +kernel

end ComplyLayer
