import ComplyLayer.Api.Validation
import ComplyLayer.Rules.Statements

/-!
# The management API

`api/management/views.py`. A request carries the credentials the middleware resolved its key to.
The rule endpoints check permissions inside the lifecycle; the list endpoints are a generic view
set behind `IsAuthenticatedKey`, which asks only for a key.
-/

namespace ComplyLayer

open Theory

/-- What a presented key resolves to. -/
structure Credentials where
  tenantId : String
  keyId : String
  environment : String
  actor : Actor

/-! ## Serialisers -/

/-- A `CharField`: text or the text of a number, stripped, not blank and within its length. -/
def charField (py : Python) (maxLength : Nat) : Value → Except Refusal String
  | .str text => check (strip text)
  | .int n => check (py.repr (.int n))
  | .float q => check (py.repr (.float q))
  | .negativeZero => check (py.repr .negativeZero)
  | _ => .error .validationError
where
  check (text : String) : Except Refusal String :=
    if text = "" ∨ maxLength < text.length ∨ Char.ofNat 0 ∈ text.toList then .error .validationError
    else .ok text

/-- A field a request has to send. -/
def requiredField (data : Dict String Value) (name : String) : Except Refusal Value :=
  match data.get? name with
  | some value => .ok value
  | none => .error .validationError

/-- A text field that keeps its value when it is not sent. -/
def optionalText? (py : Python) (maxLength : Nat) (data : Dict String Value) (name : String)
    (current : String) : Except Refusal String :=
  match data.get? name with
  | some value => charField py maxLength value
  | none => .ok current

/-- The `values` of a list: any JSON value but null. -/
def listValues (data : Dict String Value) (current : Value) : Except Refusal Value :=
  match data.get? "values" with
  | some .none => .error .validationError
  | some values => .ok values
  | none => .ok current

/-! ## Named lists -/

namespace ManagementDb

/-- A tenant's list by its primary key. -/
def list? (db : ManagementDb) (tenantId : String) (pk : Nat) : Option NamedList :=
  (db.lists.find? pk).filter fun entry => entry.tenantId = tenantId

def loadList (db : ManagementDb) (tenantId : String) (pk : Nat) : Except Refusal NamedList :=
  match db.list? tenantId pk with
  | some entry => .ok entry
  | none => .error .notFound

/-- Another list of the tenant has the name of this one. -/
def listNameTaken (db : ManagementDb) (entry : NamedList) : Bool :=
  db.lists.rows.any fun row =>
    row.id ≠ entry.id ∧ row.tenantId = entry.tenantId ∧ row.name = entry.name

def insertList (db : ManagementDb) (entry : NamedList) : Except Refusal ManagementDb :=
  if db.listNameTaken entry then .error .integrityError
  else
    match db.lists.insert? entry with
    | some lists => .ok { db with lists := lists }
    | none => .error .integrityError

def saveList (db : ManagementDb) (entry : NamedList) : Except Refusal ManagementDb :=
  if db.listNameTaken entry then .error .integrityError
  else .ok { db with lists := db.lists.put entry }

/-- `_publish`: by whoever made the request, with no check of the role. -/
def publishList (db : ManagementDb) (credentials : Credentials) (eventType : String)
    (entry : NamedList) : Except Refusal ManagementDb := do
  let (db, version) ← publishVersion db credentials.tenantId credentials.actor
  pure (db.append credentials.tenantId eventType credentials.actor ("named_list", entry.name)
    [("values", entry.values), ("ruleset_version", .int version.version)])

/-- `POST /v1/lists`. The primary key is the one the database allots. -/
def createList (py : Python) (db : ManagementDb) (credentials : Credentials) (listId : Nat)
    (data : Dict String Value) : Except Refusal ManagementDb := do
  let name ← requiredField data "name" >>= charField py 64
  let values ← listValues data (.list [])
  let entry : NamedList := ⟨listId, credentials.tenantId, name, values, credentials.actor.id⟩
  let db ← db.insertList entry
  db.publishList credentials "list.created" entry

/-- `perform_update`, of `PUT` and `PATCH` alike. -/
def performUpdate (db : ManagementDb) (credentials : Credentials) (entry : NamedList)
    (name : String) (values : Value) : Except Refusal ManagementDb := do
  let updated : NamedList :=
    { entry with name := name, values := values, updatedBy := credentials.actor.id }
  let db ← db.saveList updated
  db.publishList credentials "list.updated" updated

/-- `update`, with the name field as `partial` has it. -/
def updateWith (db : ManagementDb) (credentials : Credentials) (pk : Nat)
    (data : Dict String Value) (nameOf : NamedList → Except Refusal String) :
    Except Refusal ManagementDb := do
  let entry ← db.loadList credentials.tenantId pk
  let name ← nameOf entry
  let values ← listValues data entry.values
  db.performUpdate credentials entry name values

/-- `PUT /v1/lists/{id}`. -/
def updateList (py : Python) (db : ManagementDb) (credentials : Credentials) (pk : Nat)
    (data : Dict String Value) : Except Refusal ManagementDb :=
  db.updateWith credentials pk data fun _ => requiredField data "name" >>= charField py 64

/-- `PATCH /v1/lists/{id}`. -/
def partialUpdateList (py : Python) (db : ManagementDb) (credentials : Credentials) (pk : Nat)
    (data : Dict String Value) : Except Refusal ManagementDb :=
  db.updateWith credentials pk data fun entry => optionalText? py 64 data "name" entry.name

/-- `DELETE /v1/lists/{id}`: the row goes, without a version or an audit record. -/
def destroyList (db : ManagementDb) (credentials : Credentials) (pk : Nat) :
    Except Refusal ManagementDb := do
  let entry ← db.loadList credentials.tenantId pk
  pure { db with lists := db.lists.erase entry.id }

/-! ## API keys and reviews -/

/-- What issuing a key draws: its id, the random part of its secret, and the hash of it. -/
structure DrawnKey where
  id : String
  secret : String
  hashedSecret : String

end ManagementDb

/-- `Role(value)`. -/
def Role.ofStr? (value : String) : Option Role :=
  [Role.complianceAnalyst, .complianceOfficer, .riskManager, .engineer, .auditor].find?
    fun role => role.str = value

/-- The role a key is asked to act as. -/
def roleOf (value : String) : Except Refusal Role :=
  match Role.ofStr? value with
  | some role => .ok role
  | none => .error .validationError

/-- The prefix of a key that `generate_key` returns. -/
def prefixOf (environment secret : String) : String :=
  ("cl_" ++ environment ++ "_" ++ secret).take 16 |>.toString

namespace ManagementDb

def insertKey (db : ManagementDb) (key : ApiKey) : Except Refusal ManagementDb :=
  if db.keys.rows.any fun row => row.keyPrefix = key.keyPrefix then .error .integrityError
  else
    match db.keys.insert? key with
    | some keys => .ok { db with keys := keys }
    | none => .error .integrityError

/-- `POST /v1/keys`. -/
def issueKey (py : Python) (db : ManagementDb) (credentials : Credentials) (drawn : DrawnKey)
    (data : Dict String Value) : Except Refusal ManagementDb := do
  permit credentials.actor .manageKeys
  let name ← requiredField data "name" >>= charField py 128
  let environment ← optionalText? py 8 data "environment" "live"
  let role ← requiredField data "role" >>= charField py 32 >>= roleOf
  (requireIssuable credentials.actor role).mapError Refusal.permissionDenied
  let key : ApiKey :=
    { id := drawn.id
      tenantId := credentials.tenantId
      name := name
      keyPrefix := prefixOf environment drawn.secret
      hashedSecret := drawn.hashedSecret
      environment := environment
      role := role
      createdBy := credentials.actor.id }
  let db ← db.insertKey key
  pure (db.append credentials.tenantId "apikey.issued" credentials.actor ("api_key", key.id)
    [("prefix", .str key.keyPrefix), ("role", .str role.str), ("environment", .str environment)])

def loadKey (db : ManagementDb) (tenantId keyId : String) : Except Refusal ApiKey :=
  match (db.keys.find? keyId).filter fun key => key.tenantId = tenantId with
  | some key => .ok key
  | none => .error .notFound

/-- The check of `revoke`. -/
def requireUnrevoked (key : ApiKey) : Except Refusal Unit :=
  if key.revokedAt.isSome then .error (.lifecycleError "that key is already revoked") else .ok ()

/-- `POST /v1/keys/{id}/revoke`. -/
def revokeKey (db : ManagementDb) (credentials : Credentials) (keyId : String) (reason : Value)
    (now : Int) : Except Refusal ManagementDb := do
  permit credentials.actor .manageKeys
  let key ← db.loadKey credentials.tenantId keyId
  requireUnrevoked key
  let db : ManagementDb := { db with keys := db.keys.put { key with revokedAt := some now } }
  pure (db.append credentials.tenantId "apikey.revoked" credentials.actor ("api_key", key.id)
    [("prefix", .str key.keyPrefix), ("reason", reason)])

/-- `POST /v1/decisions/{id}/review`, which writes the decision's review columns. -/
def reviewDecision (db : ManagementDb) (credentials : Credentials) (decisionId : Option String)
    (reviewStatus notes : Value) : Except Refusal ManagementDb := do
  permit credentials.actor .reviewDecision
  match decisionId with
  | some decisionId =>
    pure (db.append credentials.tenantId "decision.reviewed" credentials.actor
      ("decision", decisionId) [("status", reviewStatus), ("notes", notes)])
  | none => .error .notFound

end ManagementDb

/-! ## Requests -/

/-- A request of the management API. -/
inductive ManagementRequest where
  /-- A rule endpoint or a revert, with a body its serialiser accepts. -/
  | lifecycle (op : LifecycleOp)
  | createList (listId : Nat) (data : Dict String Value)
  | updateList (pk : Nat) (data : Dict String Value)
  | partialUpdateList (pk : Nat) (data : Dict String Value)
  | destroyList (pk : Nat)
  | issueKey (drawn : ManagementDb.DrawnKey) (data : Dict String Value)
  | revokeKey (keyId : String) (reason : Value) (now : Int)
  | reviewDecision (decisionId : Option String) (reviewStatus notes : Value)
  /-- A read, `validate`, or a body its serialiser refuses. -/
  | other

/-- A request and the credentials of its key, if it has one. -/
structure ApiRequest where
  credentials : Option Credentials
  request : ManagementRequest

/-- The view of a request. -/
def ManagementRequest.perform (py : Python) (db : ManagementDb) (credentials : Credentials) :
    ManagementRequest → Except Refusal ManagementDb
  | .lifecycle op => do
    let (db', _) ← LifecycleStep.perform py db ⟨credentials.tenantId, credentials.actor, op⟩
    pure db'
  | .createList listId data => db.createList py credentials listId data
  | .updateList pk data => db.updateList py credentials pk data
  | .partialUpdateList pk data => db.partialUpdateList py credentials pk data
  | .destroyList pk => db.destroyList credentials pk
  | .issueKey drawn data => db.issueKey py credentials drawn data
  | .revokeKey keyId reason now => db.revokeKey credentials keyId reason now
  | .reviewDecision decisionId reviewStatus notes =>
    db.reviewDecision credentials decisionId reviewStatus notes
  | .other => pure db

/-- One request of a run: a refused one changes nothing, and one without a key is refused. -/
def managementStep (py : Python) (db : ManagementDb) (r : ApiRequest) : Option ManagementDb :=
  match r.credentials with
  | none => some db
  | some credentials =>
    match r.request.perform py db credentials with
    | .ok db' => some db'
    | .error _ => some db

/-! ## Requests whose record is refused -/

/-- What a request adds to the trail. -/
def ManagementDb.recordsFrom (db db' : ManagementDb) : List AuditEvent :=
  db'.audit.drop db.audit.length

/-- The view of a request whose record `jsonb` can refuse. What it has written in no block with the
record stays when that is taken back, as lists, keys and reviews are. -/
def ManagementRequest.settle (py : Python) (db : ManagementDb) (credentials : Credentials)
    (request : ManagementRequest) : ManagementDb :=
  match request.perform py db credentials with
  | .ok db' =>
    if (db.recordsFrom db').all AuditEvent.storable then db' else { db' with audit := db.audit }
  | .error _ => db

/-- One request of a run in which records can be refused. The lifecycle has its own blocks. -/
def recordingStep (py : Python) (db : ManagementDb) (r : ApiRequest) : Option ManagementDb :=
  match r.credentials with
  | none => some db
  | some credentials =>
    match r.request with
    | .lifecycle op =>
      some ((LifecycleStep.transact py ⟨credentials.tenantId, credentials.actor, op⟩).request
        (fun _ => false) db).2
    | request => some (request.settle py db credentials)

end ComplyLayer
