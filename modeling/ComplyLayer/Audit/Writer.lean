import ComplyLayer.Audit.Chain
import ComplyLayer.Theory.SortByKey
import Mathlib.Data.Prod.Lex
import Mathlib.Data.String.Basic

/-!
# Appending to a tenant's audit chain

`audit/writer.py`. An append holds the row lock of the tenant from the look at the tail to the
commit, so appends of one tenant take effect one after the other, each as one step.
-/

namespace ComplyLayer

open Theory

/-- Tenants and audit records, the records in the order they were written. -/
structure AuditDb where
  tenants : List String
  records : List AuditRecord := []

/-- What a worker reads off its clocks and draws at random during one call. -/
structure AuditDraws where
  /-- `datetime.now(UTC)`, when the call starts. -/
  now : Int
  hex : String
  /-- `timezone.now()`, when the row is saved. -/
  recordedAt : Int

structure AppendArgs where
  tenantId : String
  eventType : String
  actor : Dict String Value
  subject : Dict String Value
  payload : Option (Dict String Value) := none
  occurredAt : Option Datetime := none

structure CorrectArgs where
  tenantId : String
  correctsId : String
  actor : Dict String Value
  reason : String

/-- What `correct` appends. -/
def CorrectArgs.toAppend (args : CorrectArgs) : AppendArgs where
  tenantId := args.tenantId
  eventType := "audit.corrected"
  actor := args.actor
  subject := .ofList [("type", .str "audit_record"), ("id", .str args.correctsId)]
  payload := some (.ofList [("corrects", .str args.correctsId), ("reason", .str args.reason)])

/-- Where `order_by("recorded_at", "id")` puts a record. -/
def AuditRecord.position (record : AuditRecord) : Int ×ₗ String :=
  toLex (record.recordedAt, record.id)

/-- A moment as a `timestamptz` column gives it back. -/
def Datetime.timestamptz (moment : Datetime) : Datetime := ⟨moment.assumeUtc.micros, some 0⟩

/-- A record as its row is read back, `none` where a column refuses its value. -/
def AuditRuntime.stored (rt : AuditRuntime) (record : AuditRecord) : Option AuditRecord := do
  let actor ← rt.jsonb record.actor
  let subject ← rt.jsonb record.subject
  let payload ← rt.jsonb record.payload
  if record.eventType.length ≤ 64 then
    some { record with
      occurredAt := record.occurredAt.timestamptz, actor := actor, subject := subject,
      payload := payload }
  else none

namespace AuditDb

/-- `AuditRecord.objects.filter(tenant_id=tenant_id)`, in the order of writing. -/
def recordsOf (db : AuditDb) (tenantId : String) : List AuditRecord :=
  db.records.filter fun record => record.tenantId = tenantId

/-- The tenant's first record by `-recorded_at, -id`. -/
def tail (db : AuditDb) (tenantId : String) : Option AuditRecord :=
  (sortBy (fun record => OrderDual.toDual record.position) (db.recordsOf tenantId)).head?

/-- The tenant's records by `recorded_at, id`. -/
def inOrder (db : AuditDb) (tenantId : String) : List AuditRecord :=
  sortBy AuditRecord.position (db.recordsOf tenantId)

/-- The record `append` hashes. -/
def draft (rt : AuditRuntime) (db : AuditDb) (args : AppendArgs) (draws : AuditDraws) :
    AuditRecord :=
  let moment := args.occurredAt.getD ⟨draws.now, some 0⟩
  let prevHash := (db.tail args.tenantId).elim genesis AuditRecord.hash
  let fields : AuditFields :=
    { id := newAuditId draws.hex, tenantId := args.tenantId, eventType := args.eventType,
      occurredAt := moment, actor := args.actor, subject := args.subject,
      payload := args.payload.getD ∅, prevHash := prevHash }
  { fields with recordedAt := draws.recordedAt, hash := computeHash rt fields }

/-- `append`, `none` where the row is refused: a value its column does not take, an id that is
taken, or a tenant that is not there. -/
def append (rt : AuditRuntime) (db : AuditDb) (args : AppendArgs) (draws : AuditDraws) :
    Option AuditDb := do
  let row ← rt.stored (db.draft rt args draws)
  if row.id ∈ db.records.map (·.id) ∨ row.tenantId ∉ db.tenants then none
  else some { db with records := db.records ++ [row] }

def correct (rt : AuditRuntime) (db : AuditDb) (args : CorrectArgs) (draws : AuditDraws) :
    Option AuditDb :=
  db.append rt args.toAppend draws

/-- Verify a tenant's whole chain, oldest first. -/
def verify (rt : AuditRuntime) (db : AuditDb) (tenantId : String) : VerificationResult :=
  verifyChain rt (db.inOrder tenantId)

end AuditDb

/-- One call from a worker, with what it read and drew. -/
inductive AuditCall where
  | append (args : AppendArgs) (draws : AuditDraws)
  | correct (args : CorrectArgs) (draws : AuditDraws)

/-- One call as a step. A call whose row is refused raises and leaves the table as it was. -/
def AuditDb.step (rt : AuditRuntime) (db : AuditDb) (call : AuditCall) : Option AuditDb :=
  match call with
  | .append args draws => some ((db.append rt args draws).getD db)
  | .correct args draws => some ((db.correct rt args draws).getD db)

end ComplyLayer
