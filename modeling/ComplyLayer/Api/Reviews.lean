import ComplyLayer.Api.Decision
import ComplyLayer.Api.Management

/-!
# Reviewing decisions

`DecisionViewSet.review` of `api/management/views.py` beside the requests that store decisions, and
the page of `dashboard/views.py` that shows what waits for a review. A decision is stored with blank
review columns.
-/

namespace ComplyLayer

open Theory

structure ReviewColumns where
  status : String := ""
  reviewedBy : String := ""
  notes : String := ""
  deriving DecidableEq

/-- The decision path, the review columns by the primary key of the decision, and the trail. -/
structure ReviewWorld where
  world : World
  reviews : String × Int → ReviewColumns := fun _ => {}
  audit : List AuditEvent := []

/-- What a text column takes of a value: its `str`, and neither null nor NUL. -/
def columnText (py : Python) (fits : Nat → Bool) (value : Value) : Except Refusal String :=
  match value with
  | .none => .error .integrityError
  | .str text => check text
  | value => check (py.repr value)
where
  check (text : String) : Except Refusal String :=
    if fits text.length ∧ Char.ofNat 0 ∉ text.toList then .ok text else .error .integrityError

namespace ReviewWorld

def rows (w : ReviewWorld) (tenantId : String) : List DecisionRow :=
  w.world.db.decisions.rows.filter fun row => row.tenantId = tenantId

def status (w : ReviewWorld) (row : DecisionRow) : String := (w.reviews row.pk).status

/-- A query parameter that is there, and not empty, has to be the value of its field. -/
def selects (query : Dict String String) (field : String) (value : Value) : Bool :=
  match query.get? field with
  | some text => text = "" ∨ value.pyEq (.str text)
  | none => true

/-- `get_object` of the decision views: the first with the id, newest first. -/
def decision? (w : ReviewWorld) (tenantId : String) (query : Dict String String) (id : String) :
    Option DecisionRow :=
  let chosen := (w.rows tenantId).filter fun row =>
    selects query "outcome" row.outcome && selects query "review_status" (.str (w.status row))
  (sortBy (fun row => toLex (-row.decidedAt, row.id)) chosen).find? fun row => row.id = id

def loadDecision (w : ReviewWorld) (tenantId : String) (query : Dict String String) (id : String) :
    Except Refusal DecisionRow :=
  match w.decision? tenantId query id with
  | some row => .ok row
  | none => .error .notFound

/-- The columns `review` sets: a status of at most 16 characters, by default `cleared`. -/
def reviewOf (py : Python) (actor : Actor) (data : Dict String Value) :
    Except Refusal ReviewColumns := do
  let status ← columnText py (· ≤ 16) ((data.get? "status").getD (.str "cleared"))
  let notes ← columnText py (fun _ => true) ((data.get? "notes").getD (.str ""))
  pure ⟨status, actor.id, notes⟩

/-- What `review` appends to the trail. -/
def recordOf (credentials : Credentials) (row : DecisionRow) (data : Dict String Value) :
    AuditEvent :=
  ⟨credentials.tenantId, "decision.reviewed", credentials.actor, "decision", row.id,
    [("status", (data.get? "status").getD (.str "cleared")),
      ("notes", (data.get? "notes").getD (.str ""))]⟩

/-- `POST /v1/decisions/{id}/review`. The columns are written in no block with the record: where
that is refused, as a `jsonb` column refuses NUL, the columns stay, and the request fails. -/
def review (py : Python) (w : ReviewWorld) (credentials : Credentials) (query : Dict String String)
    (id : String) (data : Dict String Value) : Except Refusal ReviewWorld := do
  permit credentials.actor .reviewDecision
  let row ← w.loadDecision credentials.tenantId query id
  let columns ← reviewOf py credentials.actor data
  let event := recordOf credentials row data
  pure { w with
    reviews := Function.update w.reviews row.pk columns
    audit := if event.storable then w.audit ++ [event] else w.audit }

end ReviewWorld

/-- A step of a decision request, or a review with the query it is sent with. -/
inductive ReviewStep where
  | decision (step : DecisionStep)
  | review (credentials : Credentials) (query : Dict String String) (id : String)
      (data : Dict String Value)

/-- A review that is refused before it writes changes nothing. -/
def reviewStep (py : Python) (hash : HashCustomerRef) (requests : Nat → DecisionRequest)
    (w : ReviewWorld) : ReviewStep → Option ReviewWorld
  | .decision step =>
    (decisionStep py hash requests w.world step).map fun world => { w with world := world }
  | .review credentials query id data =>
    match w.review py credentials query id data with
    | .ok w' => some w'
    | .error _ => some w

/-! ## The page -/

/-- What the page says of the queue as a whole. -/
inductive QueueState where
  | empty
  | underPressure (depth : Nat)
  deriving DecidableEq

structure QueuePage where
  decisions : List DecisionRow
  state : Option QueueState
  /-- How many decisions the banner is about, when there is one. -/
  degraded : Option Nat

def queuePressureThreshold : Nat := 500

namespace ReviewWorld

/-- The decisions that were flagged and have no review. -/
def waiting (w : ReviewWorld) (tenantId : String) : List DecisionRow :=
  (w.rows tenantId).filter fun row => row.outcome.pyEq (.str "flag") ∧ w.status row = ""

/-- `queue`: the newest 200, and what the number of these says. -/
def queue (w : ReviewWorld) (tenantId : String) : QueuePage :=
  let decisions := (sortBy (fun row => -row.decidedAt) (w.waiting tenantId)).take 200
  let depth := decisions.length
  let degraded := (w.rows tenantId).countP fun row =>
    row.degraded.pyEq (.bool true) ∧ w.status row = ""
  { decisions := decisions
    state :=
      if depth = 0 then some .empty
      else if queuePressureThreshold ≤ depth then some (.underPressure depth)
      else none
    degraded := if degraded = 0 then none else some degraded }

end ReviewWorld

end ComplyLayer
