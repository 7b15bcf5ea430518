import ComplyLayer.Dsl.Value
import ComplyLayer.Theory.Dict

/-!
# The audit chain

`audit/chain.py`: what the hash of a record covers, and the walk that checks every link.
-/

namespace ComplyLayer

open Theory

/-- The library functions the chain rests on, and what a `jsonb` column does to a document. -/
structure AuditRuntime where
  /-- `hashlib.sha256(text.encode()).hexdigest()`. -/
  sha256 : String → String
  /-- `json.dumps(document, sort_keys=True, separators=(",", ":"), default=str)`. -/
  dumps : List (String × Value) → String
  isoformat : Datetime → String
  /-- A document as it is read back, `none` where the column refuses it. -/
  jsonb : Dict String Value → Option (Dict String Value)

def genesis : String := "sha256:" ++ String.ofList (List.replicate 64 '0')

structure VerificationResult where
  ok : Bool
  checked : Nat
  brokenAt : Option String := none
  detail : String := ""
  deriving DecidableEq, Repr

/-- The id `new_audit_id` makes of the drawn digits. -/
def newAuditId (hex : String) : String := "aud_" ++ hex

/-- What the hash covers. -/
structure AuditFields where
  id : String
  tenantId : String
  eventType : String
  occurredAt : Datetime
  actor : Dict String Value
  subject : Dict String Value
  payload : Dict String Value
  prevHash : String

/-- `AuditRecord`. -/
structure AuditRecord extends AuditFields where
  /-- In microseconds since the epoch. -/
  recordedAt : Int
  hash : String

def canonicalPayload (rt : AuditRuntime) (fields : AuditFields) : String :=
  rt.dumps
    [("id", .str fields.id),
      ("tenant_id", .str fields.tenantId),
      ("event_type", .str fields.eventType),
      ("occurred_at", .str (rt.isoformat fields.occurredAt)),
      ("actor", .dict fields.actor.entries),
      ("subject", .dict fields.subject.entries),
      ("payload", .dict fields.payload.entries),
      ("prev_hash", .str fields.prevHash)]

def computeHash (rt : AuditRuntime) (fields : AuditFields) : String :=
  "sha256:" ++ rt.sha256 (canonicalPayload rt fields)

/-- The loop of `verify_chain`. -/
def verifyChainFrom (rt : AuditRuntime) (expectedPrev : String) (index : Nat) :
    List AuditRecord → VerificationResult
  | [] => { ok := true, checked := index }
  | record :: rest =>
    if record.prevHash ≠ expectedPrev then
      { ok := false, checked := index, brokenAt := some record.id,
        detail := s!"record {record.id} claims to follow {record.prevHash} " ++
          s!"but the previous record hashed to {expectedPrev}" }
    else if computeHash rt record.toAuditFields ≠ record.hash then
      { ok := false, checked := index, brokenAt := some record.id,
        detail := s!"record {record.id} does not hash to its stored value — " ++
          "its contents changed after it was written" }
    else verifyChainFrom rt record.hash (index + 1) rest

def verifyChain (rt : AuditRuntime) (records : List AuditRecord) : VerificationResult :=
  verifyChainFrom rt genesis 0 records

end ComplyLayer
