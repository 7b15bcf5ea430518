import ComplyLayer.Api.Columns
import ComplyLayer.Api.Handler
import ComplyLayer.Theory.Table

/-!
# Persistence for the decision path

`api/store.py`: the store over the two tables of `models.py` it writes, and the one without a
database. A `jsonb` column keeps the JSON value it is given, of which `JsonbColumn` tells how it is
read back, and a `timestamptz` column the instant. A row that a column does not take is refused, and
so is one of a tenant that is not there. The columns the review screen fills later are not written
here.
-/

namespace ComplyLayer

open Theory Column

structure DecisionRow where
  id : String
  decidedAt : Int
  tenantId : String
  idempotencyKey : String
  rulesetVersion : Nat
  transactionRef : String
  customerRefHash : String
  amountMinor : Int
  currency : String
  context : Dict String Value
  resolvedFacts : Value
  outcome : Value
  matchedRules : Value
  shadowMatches : Value
  reason : Value
  degraded : Value
  erroredRules : Value
  latencyMs : Value

/-- The primary key, which has to contain the partition key. -/
def DecisionRow.pk (row : DecisionRow) : String × Int := (row.id, row.decidedAt)

/-- The tenant and the idempotency key, which no constraint on this table keeps unique. -/
def DecisionRow.idempotency (row : DecisionRow) : String × String :=
  (row.tenantId, row.idempotencyKey)

/-- The columns that do not hold the transaction take their values. -/
structure DecisionRow.RestFits (row : DecisionRow) : Prop where
  id : varchar 32 row.id
  tenantId : varchar 32 row.tenantId
  idempotencyKey : varchar 128 row.idempotencyKey
  rulesetVersion : positiveInteger row.rulesetVersion
  customerRefHash : varchar 64 row.customerRefHash
  outcome : ∃ s, row.outcome = .str s ∧ varchar 16 s
  matchedRules : jsonb row.matchedRules
  shadowMatches : jsonb row.shadowMatches
  reason : ∃ s, row.reason = .str s ∧ text s
  degraded : ∃ b, row.degraded = .bool b
  erroredRules : jsonb row.erroredRules
  latencyMs : ∃ n, row.latencyMs = .int n ∧ positiveInteger n

/-- Every column takes its value. -/
structure DecisionRow.Fits (row : DecisionRow) : Prop extends row.RestFits where
  transactionRef : varchar 128 row.transactionRef
  amountMinor : bigint row.amountMinor
  currency : varchar 3 row.currency
  context : jsonb (.dict row.context.entries)
  resolvedFacts : jsonb row.resolvedFacts

instance (row : DecisionRow) : Decidable row.RestFits :=
  decidable_of_iff (varchar 32 row.id ∧ varchar 32 row.tenantId ∧ varchar 128 row.idempotencyKey ∧
      positiveInteger row.rulesetVersion ∧ varchar 64 row.customerRefHash ∧
      (∃ s, row.outcome = .str s ∧ varchar 16 s) ∧ jsonb row.matchedRules ∧
      jsonb row.shadowMatches ∧ (∃ s, row.reason = .str s ∧ text s) ∧
      (∃ b, row.degraded = .bool b) ∧ jsonb row.erroredRules ∧
      ∃ n, row.latencyMs = .int n ∧ positiveInteger n)
    ⟨fun ⟨id, tenant, key, version, hash, outcome, matched, shadow, reason, degraded, errored,
        latency⟩ =>
      ⟨id, tenant, key, version, hash, outcome, matched, shadow, reason, degraded, errored, latency⟩,
      fun h => ⟨h.id, h.tenantId, h.idempotencyKey, h.rulesetVersion, h.customerRefHash, h.outcome,
        h.matchedRules, h.shadowMatches, h.reason, h.degraded, h.erroredRules, h.latencyMs⟩⟩

instance (row : DecisionRow) : Decidable row.Fits :=
  decidable_of_iff (row.RestFits ∧ varchar 128 row.transactionRef ∧ bigint row.amountMinor ∧
      varchar 3 row.currency ∧ jsonb (.dict row.context.entries) ∧ jsonb row.resolvedFacts)
    ⟨fun ⟨rest, ref, amount, currency, context, facts⟩ =>
      ⟨rest, ref, amount, currency, context, facts⟩,
      fun h => ⟨h.toRestFits, h.transactionRef, h.amountMinor, h.currency, h.context,
        h.resolvedFacts⟩⟩

structure IdempotencyRecord where
  tenantId : String
  key : String
  decisionId : String
  decisionDecidedAt : Int
  responseBody : Dict String Value

/-- The unique constraint `idempotency_key_per_tenant`. -/
def IdempotencyRecord.perTenant (record : IdempotencyRecord) : String × String :=
  (record.tenantId, record.key)

/-- Every column of a record takes its value. -/
structure IdempotencyRecord.Fits (record : IdempotencyRecord) : Prop where
  tenantId : varchar 32 record.tenantId
  key : varchar 128 record.key
  decisionId : varchar 32 record.decisionId
  responseBody : jsonb (.dict record.responseBody.entries)

instance (record : IdempotencyRecord) : Decidable record.Fits :=
  decidable_of_iff (varchar 32 record.tenantId ∧ varchar 128 record.key ∧
      varchar 32 record.decisionId ∧ jsonb (.dict record.responseBody.entries))
    ⟨fun ⟨tenant, key, decision, body⟩ => ⟨tenant, key, decision, body⟩,
      fun h => ⟨h.tenantId, h.key, h.decisionId, h.responseBody⟩⟩

structure Database where
  decisions : Table DecisionRow.pk := ∅
  records : Table IdempotencyRecord.perTenant := ∅
  /-- The tenants that are there, which both tables refer to. -/
  tenants : String → Bool := fun _ => true

/-- The tables take the two rows of a save. A record is created only where the key has none. -/
structure Database.Takes (db : Database) (decision : DecisionRow) (record : IdempotencyRecord) :
    Prop where
  tenant : db.tenants decision.tenantId
  decision : decision.Fits
  record : (db.records.find? record.perTenant).isSome ∨ record.Fits

instance (db : Database) (decision : DecisionRow) (record : IdempotencyRecord) :
    Decidable (db.Takes decision record) :=
  decidable_of_iff (db.tenants decision.tenantId ∧ decision.Fits ∧
      ((db.records.find? record.perTenant).isSome ∨ record.Fits))
    ⟨fun ⟨tenant, decision, record⟩ => ⟨tenant, decision, record⟩,
      fun h => ⟨h.tenant, h.decision, h.record⟩⟩

/-- The keyword arguments of `save`. -/
structure SaveArguments where
  tenantId : String
  body : Dict String Value
  transaction : Transaction
  idempotencyKey : String
  customerRefHash : String
  rulesetVersion : Nat

namespace DatabaseStore

def findResponse (db : Database) (tenantId idempotencyKey : String) : Option (Dict String Value) :=
  (db.records.find? (tenantId, idempotencyKey)).map (·.responseBody)

/-- The rows `save` writes; `none` where the body lacks a key or its `decided_at` is no date. -/
def rowsOf (py : Python) (args : SaveArguments) : Option (DecisionRow × IdempotencyRecord) :=
  match args.body.get? "decision_id", args.body.get? "decided_at" with
  | some (.str decisionId), some (.str text) => do
    let moment ← py.fromisoformat text
    let outcome ← args.body.get? "outcome"
    let matchedRules ← args.body.get? "matched_rules"
    let reason ← args.body.get? "reason"
    let degraded ← args.body.get? "degraded"
    let decidedAt := moment.assumeUtc.micros
    pure
      ({ id := decisionId
         decidedAt := decidedAt
         tenantId := args.tenantId
         idempotencyKey := args.idempotencyKey
         rulesetVersion := args.rulesetVersion
         transactionRef := args.transaction.transactionRef
         customerRefHash := args.customerRefHash
         amountMinor := args.transaction.amountMinor
         currency := args.transaction.currency
         context := args.transaction.asContext
         resolvedFacts := (args.body.get? "_resolved_facts").getD (.dict [])
         outcome := outcome
         matchedRules := matchedRules
         shadowMatches := (args.body.get? "_shadow_matches").getD (.list [])
         reason := reason
         degraded := degraded
         erroredRules := (args.body.get? "_errored_rules").getD (.list [])
         latencyMs := (args.body.get? "latency_ms").getD (.int 0) },
        { tenantId := args.tenantId
          key := args.idempotencyKey
          decisionId := decisionId
          decisionDecidedAt := decidedAt
          responseBody := publicBody args.body })
  | _, _ => none

/-- `save`, one transaction: create the decision, and the idempotency record unless the key has
one. `none` where it raises, and then nothing is written. -/
def save (py : Python) (db : Database) (args : SaveArguments) : Option Database := do
  let (decision, record) ← rowsOf py args
  let decisions ← db.decisions.insert? decision
  if db.Takes decision record then
    pure { db with decisions := decisions, records := db.records.getOrCreate record }
  else none

theorem save_eq_some_iff {py : Python} : save py db args = some db' ↔
    ∃ decision record, rowsOf py args = some (decision, record) ∧
      db.decisions.insert? decision = some db'.decisions ∧
      db'.records = db.records.getOrCreate record ∧ db.Takes decision record ∧
      db'.tenants = db.tenants := by
  unfold save
  simp only [bind, Option.bind_eq_some_iff, Prod.exists, pure, Option.ite_none_right_eq_some,
    Option.some.injEq]
  constructor
  · rintro ⟨decision, record, hrows, decisions, hinsert, htakes, rfl⟩
    exact ⟨decision, record, hrows, hinsert, rfl, htakes, rfl⟩
  · rintro ⟨decision, record, hrows, hinsert, hrecords, htakes, htenants⟩
    refine ⟨decision, record, hrows, db'.decisions, hinsert, htakes, ?_⟩
    rw [← hrecords, ← htenants]

/-- Both rows of a save carry the tenant and the key, and the record the public body. -/
theorem rowsOf_spec {py : Python} (h : rowsOf py args = some (decision, record)) :
    decision.idempotency = (args.tenantId, args.idempotencyKey) ∧
      record.perTenant = (args.tenantId, args.idempotencyKey) ∧
      record.responseBody = publicBody args.body := by
  unfold rowsOf at h
  split at h
  · simp only [bind, Option.bind_eq_some_iff, pure, Option.some.injEq, Prod.mk.injEq] at h
    obtain ⟨moment, -, outcome, -, matched, -, reason, -, degraded, -, rfl, rfl⟩ := h
    exact ⟨rfl, rfl, rfl⟩
  · cases h

/-- What a row has of the transaction. -/
theorem rowsOf_transaction {py : Python} (h : rowsOf py args = some (decision, record)) :
    decision.transactionRef = args.transaction.transactionRef ∧
      decision.amountMinor = args.transaction.amountMinor ∧
      decision.currency = args.transaction.currency ∧
      decision.context = args.transaction.asContext := by
  unfold rowsOf at h
  split at h
  · simp only [bind, Option.bind_eq_some_iff, pure, Option.some.injEq, Prod.mk.injEq] at h
    obtain ⟨moment, -, outcome, -, matched, -, reason, -, degraded, -, rfl, rfl⟩ := h
    exact ⟨rfl, rfl, rfl, rfl⟩
  · cases h

theorem rowsOf_rulesetVersion {py : Python} (h : rowsOf py args = some (decision, record)) :
    decision.rulesetVersion = args.rulesetVersion := by
  unfold rowsOf at h
  split at h
  · simp only [bind, Option.bind_eq_some_iff, pure, Option.some.injEq, Prod.mk.injEq] at h
    obtain ⟨moment, -, outcome, -, matched, -, reason, -, degraded, -, rfl, rfl⟩ := h
    rfl
  · cases h

end DatabaseStore

/-- What the store of the tests keeps of a save. -/
structure SavedDecision where
  body : Dict String Value
  transaction : Transaction
  customerRefHash : String
  rulesetVersion : Nat

/-- Used by the tests and the benchmark. -/
structure InMemoryStore where
  responses : Dict (String × String) (Dict String Value) := ∅
  saved : List SavedDecision := []

namespace InMemoryStore

def findResponse (store : InMemoryStore) (tenantId idempotencyKey : String) :
    Option (Dict String Value) :=
  store.responses.get? (tenantId, idempotencyKey)

def save (store : InMemoryStore) (args : SaveArguments) : InMemoryStore where
  responses := store.responses.set (args.tenantId, args.idempotencyKey) (publicBody args.body)
  saved := store.saved ++
    [⟨args.body, args.transaction, args.customerRefHash, args.rulesetVersion⟩]

end InMemoryStore

/-- `DecisionHandler.record`. -/
def DecisionHandler.recordArguments (hash : HashCustomerRef) (handler : DecisionHandler)
    (body : Dict String Value) (transaction : Transaction) (idempotencyKey : String) :
    SaveArguments where
  tenantId := handler.tenantId
  body := body
  transaction := transaction
  idempotencyKey := idempotencyKey
  customerRefHash := hash transaction.customerRef handler.salt
  rulesetVersion := handler.ruleset.version

def DecisionHandler.record (py : Python) (hash : HashCustomerRef) (handler : DecisionHandler)
    (db : Database) (body : Dict String Value) (transaction : Transaction)
    (idempotencyKey : String) : Option Database :=
  DatabaseStore.save py db (handler.recordArguments hash body transaction idempotencyKey)

end ComplyLayer
