import ComplyLayer.Dsl.Parser
import ComplyLayer.Engine.Evaluation
import ComplyLayer.Tenancy.Roles
import ComplyLayer.Theory.Table

/-!
# The rule lifecycle

`rules/lifecycle.py` over the tables it writes. An operation takes the row its caller loaded and
returns the database after it, or the exception it raised, before which it had written nothing.
The clock and the random identifiers are arguments.
-/

namespace ComplyLayer

open Theory

/-- The fields a draft is made of and an edit may set. -/
structure RuleContent where
  name : String
  description : String := ""
  category : String
  regulatoryReference : String := ""
  expression : String
  severity : String
  priority : Int := 0
  customerMessage : String := ""
  deriving DecidableEq, Repr

structure Rule where
  id : String
  tenantId : String
  content : RuleContent
  state : State := .draft
  version : Nat := 1
  createdBy : String
  approvedBy : String := ""
  approvedAt : Option Int := none
  activatedAt : Option Int := none
  deriving DecidableEq, Repr

/-- The columns of the unique constraint of a rule. -/
def Rule.nameVersion (rule : Rule) : String × String × Nat :=
  (rule.tenantId, rule.content.name, rule.version)

/-- The entry of a rule in a published version. -/
structure RuleSnapshot where
  id : String
  name : String
  expression : String
  severity : String
  state : State
  priority : Int
  regulatoryReference : String
  customerMessage : String
  deriving DecidableEq, Repr

def Rule.snapshot (rule : Rule) : RuleSnapshot where
  id := rule.id
  name := rule.content.name
  expression := rule.content.expression
  severity := rule.content.severity
  state := rule.state
  priority := rule.content.priority
  regulatoryReference := rule.content.regulatoryReference
  customerMessage := rule.content.customerMessage

structure RuleSetVersion where
  tenantId : String
  version : Nat
  rulesSnapshot : List RuleSnapshot
  listsSnapshot : Dict String Value
  publishedBy : String

/-- The unique constraint of a version. -/
def RuleSetVersion.perTenant (version : RuleSetVersion) : String × Nat :=
  (version.tenantId, version.version)

structure NamedList where
  id : Nat
  tenantId : String
  name : String
  values : Value
  updatedBy : String

/-- A row of `ApiKey`. -/
structure ApiKey where
  id : String
  tenantId : String
  name : String
  keyPrefix : String
  hashedSecret : String
  environment : String
  role : Role
  createdBy : String
  revokedAt : Option Int := none

/-- What `audit.append` is called with. -/
structure AuditEvent where
  tenantId : String
  eventType : String
  actor : Actor
  subjectType : String
  subjectId : String
  payload : List (String × Value)

/-- The tables the management operations write. -/
structure ManagementDb where
  rules : Table Rule.id := ∅
  versions : Table RuleSetVersion.perTenant := ∅
  lists : Table NamedList.id := ∅
  keys : Table ApiKey.id := ∅
  audit : List AuditEvent := []

/-- The exceptions a lifecycle operation raises. -/
inductive Refusal where
  | permissionDenied (e : PermissionDenied)
  | lifecycleError (message : String)
  | ruleSyntax (e : RuleSyntaxError)
  | memoryError
  | integrityError
  | notFound
  | validationError

namespace ManagementDb

/-- `audit.append` of a record that the columns take. What becomes of one they refuse depends on the
block it is written in, which the statements of an operation have. -/
def append (db : ManagementDb) (tenantId eventType : String) (actor : Actor)
    (subject : String × String) (payload : List (String × Value)) : ManagementDb :=
  { db with audit := db.audit ++ [⟨tenantId, eventType, actor, subject.1, subject.2, payload⟩] }

/-- A tenant's rule by id, as every view loads it. -/
def rule? (db : ManagementDb) (tenantId id : String) : Option Rule :=
  (db.rules.find? id).filter fun rule => rule.tenantId = tenantId

/-- Another row has the tenant, name and version of this one. -/
def nameVersionTaken (db : ManagementDb) (rule : Rule) : Bool :=
  db.rules.rows.any fun row => row.id ≠ rule.id ∧ row.nameVersion = rule.nameVersion

/-- `Rule.objects.create`. -/
def createRule (db : ManagementDb) (rule : Rule) : Except Refusal ManagementDb :=
  if db.nameVersionTaken rule then .error .integrityError
  else
    match db.rules.insert? rule with
    | some rules => .ok { db with rules := rules }
    | none => .error .integrityError

/-- `rule.save()`: every column. -/
def saveRule (db : ManagementDb) (rule : Rule) : Except Refusal ManagementDb :=
  if db.nameVersionTaken rule then .error .integrityError
  else .ok { db with rules := db.rules.put rule }

/-- `rule.save(update_fields=…)`: the columns `f` sets, on the row as it is now. -/
def saveFields (db : ManagementDb) (id : String) (f : Rule → Rule) : ManagementDb :=
  match db.rules.find? id with
  | some row => { db with rules := db.rules.put (f row) }
  | none => db

/-- The tenant's newest version number, `0` when it has none. -/
def latestVersion (db : ManagementDb) (tenantId : String) : Nat :=
  ((db.versions.rows.filter (·.tenantId = tenantId)).map (·.version)).foldr max 0

/-- A tenant's rules in force and in shadow, by priority and id. -/
def publishedRules (db : ManagementDb) (tenantId : String) : List Rule :=
  sortBy (fun rule => toLex (rule.content.priority, rule.id))
    (db.rules.rows.filter fun rule =>
      rule.tenantId = tenantId ∧ (rule.state = .active ∨ rule.state = .shadow))

/-- A tenant's named lists by name. -/
def namedLists (db : ManagementDb) (tenantId : String) : Dict String Value :=
  Dict.ofList ((sortBy NamedList.name (db.lists.rows.filter (·.tenantId = tenantId))).map
    fun entry => (entry.name, entry.values))

end ManagementDb

/-- `_validate_expression`. -/
def validateExpression (py : Python) (expression : String) : Except Refusal Unit :=
  match validateSource py expression with
  | .ok _ => .ok ()
  | .error (.refused e) => .error (.ruleSyntax e)
  | .error .memoryError => .error .memoryError

/-- `require`, as a step of an operation. -/
def permit (actor : Actor) (action : Action) : Except Refusal Unit :=
  (require actor action).mapError .permissionDenied

def permitNotAuthor (actor : Actor) (authorId : String) (action : Action) : Except Refusal Unit :=
  (requireNotAuthor actor authorId action).mapError .permissionDenied

/-! ## The operations -/

/-- `create_draft`: a new rule, always as a draft. -/
def createDraft (py : Python) (db : ManagementDb) (tenantId : String) (actor : Actor)
    (ruleId : String) (content : RuleContent) : Except Refusal (ManagementDb × Rule) := do
  permit actor .createDraft
  validateExpression py content.expression
  let rule : Rule :=
    { id := ruleId, tenantId := tenantId, content := content, createdBy := actor.id }
  let db ← db.createRule rule
  pure (db.append tenantId "rule.created" actor ("rule", rule.id)
    [("name", .str content.name), ("expression", .str content.expression),
      ("severity", .str content.severity)], rule)

/-- The fields an edit sets. -/
structure RulePatch where
  name : Option String := none
  description : Option String := none
  category : Option String := none
  regulatoryReference : Option String := none
  expression : Option String := none
  severity : Option String := none
  priority : Option Int := none
  customerMessage : Option String := none
  deriving DecidableEq, Repr

def RulePatch.apply (patch : RulePatch) (content : RuleContent) : RuleContent where
  name := patch.name.getD content.name
  description := patch.description.getD content.description
  category := patch.category.getD content.category
  regulatoryReference := patch.regulatoryReference.getD content.regulatoryReference
  expression := patch.expression.getD content.expression
  severity := patch.severity.getD content.severity
  priority := patch.priority.getD content.priority
  customerMessage := patch.customerMessage.getD content.customerMessage

/-- A field of a rule whose value an edit changes. -/
structure RuleChange where
  field : String
  before : Value
  after : Value

/-- The changes between two contents, in the order of the fields. -/
def changesOf (before after : RuleContent) : List RuleChange :=
  text "name" before.name after.name ++ text "description" before.description after.description ++
    text "category" before.category after.category ++
    text "regulatory_reference" before.regulatoryReference after.regulatoryReference ++
    text "expression" before.expression after.expression ++
    text "severity" before.severity after.severity ++
    (if before.priority = after.priority then []
      else [⟨"priority", .int before.priority, .int after.priority⟩]) ++
    text "customer_message" before.customerMessage after.customerMessage
where
  text (field before after : String) : List RuleChange :=
    if before = after then [] else [⟨field, .str before, .str after⟩]

def RuleChange.entry (change : RuleChange) : Value :=
  .dict [("field", .str change.field), ("before", change.before), ("after", change.after)]

/-- `str(state)`. -/
def State.str : State → String
  | draft => "draft"
  | shadow => "shadow"
  | active => "active"
  | archived => "archived"

/-- The state is one a rule may be edited in, or sent for approval from. -/
def State.Editable (state : State) : Prop := state = .draft ∨ state = .shadow

instance (state : State) : Decidable state.Editable := inferInstanceAs (Decidable (_ ∨ _))

/-- The state check of `edit_draft` and `request_approval`, which differ in what they say. -/
def requireEditable (rule : Rule) (message : String) : Except Refusal Unit :=
  if rule.state.Editable then .ok ()
  else .error (.lifecycleError ("a rule in state " ++ rule.state.str ++ message))

/-- The expression an edit sets is validated, and no other field is. -/
def validatePatch (py : Python) (patch : RulePatch) : Except Refusal Unit :=
  match patch.expression with
  | some expression => validateExpression py expression
  | none => .ok ()

/-- The row an edit with changes leaves. -/
def Rule.edit (rule : Rule) (patch : RulePatch) : Rule :=
  { rule with
    content := patch.apply rule.content
    approvedBy := ""
    approvedAt := if rule.approvedBy = "" then rule.approvedAt else none
    version := rule.version + 1 }

/-- `edit_draft`. An edit of an approved rule resets the approval. -/
def editDraft (py : Python) (db : ManagementDb) (rule : Rule) (actor : Actor) (patch : RulePatch) :
    Except Refusal (ManagementDb × Rule) := do
  permit actor .editDraft
  requireEditable rule
    " cannot be edited; archive it and create a new version, so the change is visible in the trail"
  validatePatch py patch
  let changes := changesOf rule.content (patch.apply rule.content)
  if changes.isEmpty then pure (db, rule)
  else do
    let edited := rule.edit patch
    let db ← db.saveRule edited
    pure (db.append rule.tenantId "rule.edited" actor ("rule", rule.id)
      [("version", .int edited.version), ("changes", .list (changes.map RuleChange.entry)),
        ("approval_reset", .bool (rule.approvedBy ≠ ""))], edited)

/-- `request_approval`. -/
def requestApproval (db : ManagementDb) (rule : Rule) (actor : Actor) :
    Except Refusal (ManagementDb × Rule) := do
  permit actor .requestApproval
  requireEditable rule " is not awaiting approval"
  pure (db.append rule.tenantId "rule.approval_requested" actor ("rule", rule.id)
    [("version", .int rule.version), ("expression", .str rule.content.expression)], rule)

/-- `approve`: someone else's change. The author it compares with is the creator. -/
def approve (db : ManagementDb) (rule : Rule) (actor : Actor) (reason : Value) (now : Int) :
    Except Refusal (ManagementDb × Rule) := do
  permit actor .approve
  permitNotAuthor actor rule.createdBy .approve
  let approval (row : Rule) : Rule := { row with approvedBy := actor.id, approvedAt := some now }
  pure ((db.saveFields rule.id approval).append rule.tenantId "rule.approved" actor
    ("rule", rule.id)
    [("version", .int rule.version), ("author", .str rule.createdBy), ("reason", reason)],
    approval rule)

/-- `move_to_shadow`, from any state. -/
def moveToShadow (db : ManagementDb) (rule : Rule) (actor : Actor) :
    Except Refusal (ManagementDb × Rule) := do
  permit actor .shadow
  let shadowing (row : Rule) : Rule := { row with state := .shadow }
  pure ((db.saveFields rule.id shadowing).append rule.tenantId "rule.shadowed" actor
    ("rule", rule.id) [("version", .int rule.version)], shadowing rule)

/-- The version `publish_version` creates: every active and shadow rule, and every named list. -/
def ManagementDb.publication (db : ManagementDb) (tenantId publisher : String) :
    RuleSetVersion where
  tenantId := tenantId
  version := db.latestVersion tenantId + 1
  rulesSnapshot := (db.publishedRules tenantId).map Rule.snapshot
  listsSnapshot := db.namedLists tenantId
  publishedBy := publisher

/-- `RuleSetVersion.objects.create`. -/
def ManagementDb.createVersion (db : ManagementDb) (version : RuleSetVersion) :
    Except Refusal ManagementDb :=
  match db.versions.insert? version with
  | some versions => .ok { db with versions := versions }
  | none => .error .integrityError

/-- `publish_version`. -/
def publishVersion (db : ManagementDb) (tenantId : String) (actor : Actor) :
    Except Refusal (ManagementDb × RuleSetVersion) := do
  let version := db.publication tenantId actor.id
  let db ← db.createVersion version
  pure (db, version)

/-- The check of `activate`: an approval, or the emergency override with a written reason. -/
def requireApproved (rule : Rule) (actor : Actor) (emergencyReason : Value) :
    Except Refusal Unit :=
  if rule.approvedBy ≠ "" then .ok ()
  else if emergencyReason.truthy then permit actor .emergencyOverride
  else .error (.lifecycleError ("this rule has not been approved. Have someone else approve it, " ++
    "or use the emergency override with a written reason — which pages the risk lead."))

/-- `activate`: put a rule in force, and publish the version that includes it. -/
def activate (db : ManagementDb) (rule : Rule) (actor : Actor) (emergencyReason : Value)
    (now : Int) : Except Refusal (ManagementDb × Rule) := do
  permit actor .activate
  requireApproved rule actor emergencyReason
  let activation (row : Rule) : Rule := { row with state := .active, activatedAt := some now }
  let (db, version) ← publishVersion (db.saveFields rule.id activation) rule.tenantId actor
  let eventType := if emergencyReason.truthy then "rule.emergency_activated" else "rule.activated"
  pure (db.append rule.tenantId eventType actor ("rule", rule.id)
    [("version", .int rule.version), ("ruleset_version", .int version.version),
      ("approved_by", .str rule.approvedBy), ("emergency_reason", emergencyReason)],
    activation rule)

/-- `archive`. -/
def archive (db : ManagementDb) (rule : Rule) (actor : Actor) (reason : Value) :
    Except Refusal (ManagementDb × Rule) := do
  permit actor .archive
  let archival (row : Rule) : Rule := { row with state := .archived }
  let (db, version) ← publishVersion (db.saveFields rule.id archival) rule.tenantId actor
  pure (db.append rule.tenantId "rule.archived" actor ("rule", rule.id)
    [("reason", reason), ("ruleset_version", .int version.version)], archival rule)

/-- The version to revert to. -/
def sourceVersion (db : ManagementDb) (tenantId : String) (toVersion : Nat) :
    Except Refusal RuleSetVersion :=
  match db.versions.find? (tenantId, toVersion) with
  | some source => .ok source
  | none => .error (.lifecycleError s!"there is no version {toVersion} to revert to")

/-- `revert`: publish a new version whose content equals an older one. -/
def revert (db : ManagementDb) (tenantId : String) (actor : Actor) (toVersion : Nat) :
    Except Refusal (ManagementDb × RuleSetVersion) := do
  permit actor .revert
  let source ← sourceVersion db tenantId toVersion
  let version : RuleSetVersion :=
    { source with version := db.latestVersion tenantId + 1, publishedBy := actor.id }
  let db ← db.createVersion version
  pure (db.append tenantId "ruleset.reverted" actor ("ruleset", toString version.version)
    [("reverted_to", .int toVersion), ("new_version", .int version.version)], version)

end ComplyLayer
