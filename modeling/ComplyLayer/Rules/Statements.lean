import ComplyLayer.Rules.Transitions
import ComplyLayer.Theory.Transactions

/-!
# The statements of the lifecycle

The operations of `rules/lifecycle.py` as the statements they issue, in the transaction that
`tenant_scope` keeps around a management request. `audit.append` opens a savepoint, and `activate`
and `archive` open one around everything they write. The others write in no block of their own.
-/

namespace ComplyLayer

open Theory

/-- The statements of a request, by what issues them. -/
inductive Statement where
  | selectRule | insertRule | updateRule
  | selectSource | selectLatest | selectRules | selectLists | insertVersion
  | savepoint | release | rollback
  | auditSavepoint | lockTenant | selectTail | insertRecord | auditRelease | auditRollback
  deriving DecidableEq, Repr

/-! ## The records -/

/-- PostgreSQL has no NUL character in a text. -/
def storableText (text : String) : Bool := text.toList.all (· ≠ Char.ofNat 0)

mutual
/-- A `jsonb` column takes the value. JSON has no other values than the first eight. It refuses an
infinity and half of a surrogate pair, which no value here is, as it refuses a NUL: such a refusal
is a fault of `insertRecord`. -/
def Value.storable : Value → Bool
  | .none | .bool _ | .int _ | .float _ | .negativeZero => true
  | .str s => storableText s
  | .list xs | .tuple xs => storableList xs
  | .dict entries => storableEntries entries
  | .complex _ _ | .bytes _ | .ellipsis | .datetime _ => false

def Value.storableList : List Value → Bool
  | [] => true
  | x :: xs => x.storable && storableList xs

def Value.storableEntries : List (String × Value) → Bool
  | [] => true
  | (key, x) :: entries => storableText key && x.storable && storableEntries entries
end

namespace AuditEvent

def storable (event : AuditEvent) : Bool :=
  [event.tenantId, event.eventType, event.actor.id, event.actor.ip, event.subjectType,
    event.subjectId].all storableText && Value.storableEntries event.payload

def created (actor : Actor) (rule : Rule) : AuditEvent :=
  ⟨rule.tenantId, "rule.created", actor, "rule", rule.id,
    [("name", .str rule.content.name), ("expression", .str rule.content.expression),
      ("severity", .str rule.content.severity)]⟩

def edited (actor : Actor) (rule : Rule) (patch : RulePatch) : AuditEvent :=
  ⟨rule.tenantId, "rule.edited", actor, "rule", rule.id,
    [("version", .int (rule.edit patch).version),
      ("changes", .list
        ((changesOf rule.content (patch.apply rule.content)).map RuleChange.entry)),
      ("approval_reset", .bool (rule.approvedBy ≠ ""))]⟩

def approvalRequested (actor : Actor) (rule : Rule) : AuditEvent :=
  ⟨rule.tenantId, "rule.approval_requested", actor, "rule", rule.id,
    [("version", .int rule.version), ("expression", .str rule.content.expression)]⟩

def approved (actor : Actor) (rule : Rule) (reason : Value) : AuditEvent :=
  ⟨rule.tenantId, "rule.approved", actor, "rule", rule.id,
    [("version", .int rule.version), ("author", .str rule.createdBy), ("reason", reason)]⟩

def shadowed (actor : Actor) (rule : Rule) : AuditEvent :=
  ⟨rule.tenantId, "rule.shadowed", actor, "rule", rule.id, [("version", .int rule.version)]⟩

def activated (actor : Actor) (rule : Rule) (emergencyReason : Value) (version : Nat) :
    AuditEvent :=
  ⟨rule.tenantId,
    if emergencyReason.truthy then "rule.emergency_activated" else "rule.activated", actor, "rule",
    rule.id,
    [("version", .int rule.version), ("ruleset_version", .int version),
      ("approved_by", .str rule.approvedBy), ("emergency_reason", emergencyReason)]⟩

def archived (actor : Actor) (rule : Rule) (reason : Value) (version : Nat) : AuditEvent :=
  ⟨rule.tenantId, "rule.archived", actor, "rule", rule.id,
    [("reason", reason), ("ruleset_version", .int version)]⟩

def reverted (tenantId : String) (actor : Actor) (toVersion newVersion : Nat) : AuditEvent :=
  ⟨tenantId, "ruleset.reverted", actor, "ruleset", toString newVersion,
    [("reverted_to", .int toVersion), ("new_version", .int newVersion)]⟩

end AuditEvent

def ManagementDb.record (db : ManagementDb) (event : AuditEvent) : ManagementDb :=
  { db with audit := db.audit ++ [event] }

/-! ## The operations -/

abbrev Management := Program Statement ManagementDb Refusal

namespace Management

/-- `audit.append`. -/
def append (event : AuditEvent) : Management Unit :=
  .atomic .auditSavepoint .auditRelease .auditRollback do
    .select .lockTenant fun _ => ()
    .select .selectTail fun _ => ()
    .update .insertRecord fun db => if event.storable then some (db.record event) else none

/-- The rule of a request, as every view loads it. -/
def load (tenantId ruleId : String) : Management Rule := do
  let loaded ← .select .selectRule fun db => db.load tenantId ruleId
  .lift loaded

/-- `rule.save(update_fields=…)`. -/
def saveFields (ruleId : String) (f : Rule → Rule) : Management Unit :=
  .update .updateRule fun db => some (db.saveFields ruleId f)

def createDraft (py : Python) (tenantId : String) (actor : Actor) (ruleId : String)
    (content : RuleContent) : Management Rule := do
  .lift (permit actor .createDraft)
  .lift (validateExpression py content.expression)
  let rule : Rule :=
    { id := ruleId, tenantId := tenantId, content := content, createdBy := actor.id }
  .update .insertRule fun db => (db.createRule rule).toOption
  append (.created actor rule)
  pure rule

def editDraft (py : Python) (rule : Rule) (actor : Actor) (patch : RulePatch) :
    Management Rule := do
  .lift (permit actor .editDraft)
  .lift (requireEditable rule
    " cannot be edited; archive it and create a new version, so the change is visible in the trail")
  .lift (validatePatch py patch)
  if (changesOf rule.content (patch.apply rule.content)).isEmpty then pure rule
  else do
    .update .updateRule fun db => (db.saveRule (rule.edit patch)).toOption
    append (.edited actor rule patch)
    pure (rule.edit patch)

def requestApproval (rule : Rule) (actor : Actor) : Management Rule := do
  .lift (permit actor .requestApproval)
  .lift (requireEditable rule " is not awaiting approval")
  append (.approvalRequested actor rule)
  pure rule

def approve (rule : Rule) (actor : Actor) (reason : Value) (now : Int) : Management Rule := do
  .lift (permit actor .approve)
  .lift (permitNotAuthor actor rule.createdBy .approve)
  let approval (row : Rule) : Rule := { row with approvedBy := actor.id, approvedAt := some now }
  saveFields rule.id approval
  append (.approved actor rule reason)
  pure (approval rule)

def moveToShadow (rule : Rule) (actor : Actor) : Management Rule := do
  .lift (permit actor .shadow)
  let shadowing (row : Rule) : Rule := { row with state := .shadow }
  saveFields rule.id shadowing
  append (.shadowed actor rule)
  pure (shadowing rule)

def publishVersion (tenantId : String) (actor : Actor) : Management RuleSetVersion := do
  let latest ← .select .selectLatest fun db => db.latestVersion tenantId
  let rules ← .select .selectRules fun db => db.publishedRules tenantId
  let lists ← .select .selectLists fun db => db.namedLists tenantId
  let version : RuleSetVersion :=
    { tenantId := tenantId
      version := latest + 1
      rulesSnapshot := rules.map Rule.snapshot
      listsSnapshot := lists
      publishedBy := actor.id }
  .update .insertVersion fun db => (db.createVersion version).toOption
  pure version

def activate (rule : Rule) (actor : Actor) (emergencyReason : Value) (now : Int) :
    Management Rule := do
  .lift (permit actor .activate)
  .lift (requireApproved rule actor emergencyReason)
  let activation (row : Rule) : Rule := { row with state := .active, activatedAt := some now }
  .atomic .savepoint .release .rollback do
    saveFields rule.id activation
    let version ← publishVersion rule.tenantId actor
    append (.activated actor rule emergencyReason version.version)
  pure (activation rule)

def archive (rule : Rule) (actor : Actor) (reason : Value) : Management Rule := do
  .lift (permit actor .archive)
  let archival (row : Rule) : Rule := { row with state := .archived }
  .atomic .savepoint .release .rollback do
    saveFields rule.id archival
    let version ← publishVersion rule.tenantId actor
    append (.archived actor rule reason version.version)
  pure (archival rule)

def revert (tenantId : String) (actor : Actor) (toVersion : Nat) :
    Management RuleSetVersion := do
  .lift (permit actor .revert)
  let found ← .select .selectSource fun db => sourceVersion db tenantId toVersion
  let source ← .lift found
  let latest ← .select .selectLatest fun db => db.latestVersion tenantId
  let version : RuleSetVersion :=
    { source with version := latest + 1, publishedBy := actor.id }
  .update .insertVersion fun db => (db.createVersion version).toOption
  append (.reverted tenantId actor toVersion version.version)
  pure version

end Management

/-- The operation of a request, on the rule it loads, and what it adds to the history. -/
def LifecycleStep.transact (py : Python) (s : LifecycleStep) : Management (List Entry) :=
  match s.op with
  | .createDraft ruleId content => do
    let rule ← Management.createDraft py s.tenantId s.actor ruleId content
    pure [⟨s.actor, .created, rule⟩]
  | .editDraft ruleId patch => do
    let rule ← Management.load s.tenantId ruleId
    let edited ← Management.editDraft py rule s.actor patch
    pure (if edited.content = rule.content then [] else [⟨s.actor, .edited, edited⟩])
  | .requestApproval ruleId => do
    let rule ← Management.load s.tenantId ruleId
    let _ ← Management.requestApproval rule s.actor
    pure []
  | .approve ruleId reason now => do
    let rule ← Management.load s.tenantId ruleId
    let approved ← Management.approve rule s.actor reason now
    pure [⟨s.actor, .approved, approved⟩]
  | .moveToShadow ruleId => do
    let rule ← Management.load s.tenantId ruleId
    let _ ← Management.moveToShadow rule s.actor
    pure []
  | .activate ruleId emergencyReason now => do
    let rule ← Management.load s.tenantId ruleId
    let _ ← Management.activate rule s.actor emergencyReason now
    pure []
  | .archive ruleId reason => do
    let rule ← Management.load s.tenantId ruleId
    let _ ← Management.archive rule s.actor reason
    pure []
  | .revert toVersion => do
    let _ ← Management.revert s.tenantId s.actor toVersion
    pure []

/-! ## What the operations do when they succeed -/

/-- Nothing fails in `append` within its savepoint: no statement does, and the record can be
stored. -/
structure AuditEvent.Completes (fault : Statement → Bool) (event : AuditEvent) : Prop where
  lockTenant : fault .lockTenant = false
  selectTail : fault .selectTail = false
  insertRecord : fault .insertRecord = false
  storable : event.storable
  release : fault .auditRelease = false

namespace Management

variable {fault : Statement → Bool}

/-- The statements of `append` within its savepoint. -/
theorem append_body_means (event : AuditEvent) : Program.Means fault (do
      .select .lockTenant fun _ => ()
      .select .selectTail fun _ => ()
      .update .insertRecord fun db => if event.storable then some (db.record event) else none :
        Management Unit)
    fun db _ db' => fault .lockTenant = false ∧ fault .selectTail = false ∧
      fault .insertRecord = false ∧ event.storable ∧ db' = db.record event := by
  refine ((Program.means_select _ _).bind fun _ => (Program.means_select _ _).bind fun _ =>
    Program.means_update _ _).congr fun db _ db' => ?_
  simp only [Option.ite_none_right_eq_some]
  constructor
  · rintro ⟨_, _, ⟨hlock, -, rfl⟩, _, _, ⟨htail, -, rfl⟩, hinsert, hstorable, heq⟩
    exact ⟨hlock, htail, hinsert, hstorable, (Option.some.inj heq).symm⟩
  · rintro ⟨hlock, htail, hinsert, hstorable, rfl⟩
    exact ⟨(), db, ⟨hlock, trivial, rfl⟩, (), db, ⟨htail, trivial, rfl⟩, hinsert, hstorable, rfl⟩

theorem append_means (event : AuditEvent) : Program.Means fault (append event)
    fun db _ db' => fault .auditSavepoint = false ∧ event.Completes fault ∧
      db' = db.record event := by
  refine ((append_body_means event).atomic _ _ _).congr fun db _ db' => ?_
  constructor
  · rintro ⟨hsavepoint, hrelease, hlock, htail, hinsert, hstorable, heq⟩
    exact ⟨hsavepoint, ⟨hlock, htail, hinsert, hstorable, hrelease⟩, heq⟩
  · rintro ⟨hsavepoint, ⟨hlock, htail, hinsert, hstorable, hrelease⟩, heq⟩
    exact ⟨hsavepoint, hrelease, hlock, htail, hinsert, hstorable, heq⟩

theorem load_means (tenantId ruleId : String) : Program.Means fault (load tenantId ruleId)
    fun db rule db' => fault .selectRule = false ∧ db.load tenantId ruleId = .ok rule ∧
      db' = db := by
  refine ((Program.means_select _ _).bind fun _ => Program.means_lift _).congr
    fun db rule db' => ?_
  constructor
  · rintro ⟨_, _, ⟨hselect, rfl, rfl⟩, hload, rfl⟩
    exact ⟨hselect, hload, rfl⟩
  · rintro ⟨hselect, hload, rfl⟩
    exact ⟨_, _, ⟨hselect, rfl, rfl⟩, hload, rfl⟩

theorem saveFields_means (ruleId : String) (f : Rule → Rule) :
    Program.Means fault (saveFields ruleId f)
      fun db _ db' => fault .updateRule = false ∧ db' = db.saveFields ruleId f := by
  refine (Program.means_update _ _).congr fun db _ db' => and_congr_right fun _ => ?_
  rw [Option.some.injEq, eq_comm]

theorem createDraft_means : Program.Means fault (createDraft py tenantId actor ruleId content)
    fun db rule db' => ComplyLayer.createDraft py db tenantId actor ruleId content =
        .ok (db', rule) ∧
      fault .insertRule = false ∧ fault .auditSavepoint = false ∧
      (AuditEvent.created actor rule).Completes fault := by
  refine ((Program.means_lift _).bind fun _ => (Program.means_lift _).bind fun _ =>
    (Program.means_update _ _).bind fun _ => (append_means _).bind fun _ =>
      Program.means_pure _).congr fun db rule db' => ?_
  rw [ComplyLayer.createDraft, seq_eq_ok, seq_eq_ok]
  simp only [bind_eq_ok, toOption_eq_some]
  constructor
  · rintro ⟨_, _, ⟨hmay, rfl⟩, _, _, ⟨hvalid, rfl⟩, _, db₁, ⟨hinsert, hcreate⟩, _, _,
      ⟨hsavepoint, hrecord, rfl⟩, rfl, rfl⟩
    exact ⟨⟨hmay, hvalid, db₁, hcreate, rfl⟩, hinsert, hsavepoint, hrecord⟩
  · rintro ⟨⟨hmay, hvalid, db₁, hcreate, hpure⟩, hinsert, hsavepoint, hrecord⟩
    cases hpure
    exact ⟨(), db, ⟨hmay, rfl⟩, (), db, ⟨hvalid, rfl⟩, (), db₁, ⟨hinsert, hcreate⟩, (), _,
      ⟨hsavepoint, hrecord, rfl⟩, rfl, rfl⟩

theorem editDraft_means : Program.Means fault (editDraft py rule actor patch)
    fun db edited db' => ComplyLayer.editDraft py db rule actor patch = .ok (db', edited) ∧
      (patch.apply rule.content = rule.content ∨
        fault .updateRule = false ∧ fault .auditSavepoint = false ∧
        (AuditEvent.edited actor rule patch).Completes fault) := by
  unfold editDraft ComplyLayer.editDraft
  dsimp only
  by_cases hchange : patch.apply rule.content = rule.content
  · rw [if_pos (changesOf_isEmpty_iff.mpr hchange)]
    refine ((Program.means_lift _).bind fun _ => (Program.means_lift _).bind fun _ =>
      (Program.means_lift _).bind fun _ => Program.means_pure _).congr fun db edited db' => ?_
    rw [if_pos (changesOf_isEmpty_iff.mpr hchange), seq_eq_ok, seq_eq_ok, seq_eq_ok]
    constructor
    · rintro ⟨_, _, ⟨hmay, rfl⟩, _, _, ⟨heditable, rfl⟩, _, _, ⟨hvalid, rfl⟩, rfl, rfl⟩
      exact ⟨⟨hmay, heditable, hvalid, rfl⟩, .inl hchange⟩
    · rintro ⟨⟨hmay, heditable, hvalid, hpure⟩, -⟩
      cases hpure
      exact ⟨(), db, ⟨hmay, rfl⟩, (), db, ⟨heditable, rfl⟩, (), db, ⟨hvalid, rfl⟩, rfl, rfl⟩
  · have hsome : ¬ (changesOf rule.content (patch.apply rule.content)).isEmpty :=
      fun hempty => hchange (changesOf_isEmpty_iff.mp hempty)
    rw [if_neg hsome]
    refine ((Program.means_lift _).bind fun _ => (Program.means_lift _).bind fun _ =>
      (Program.means_lift _).bind fun _ => (Program.means_update _ _).bind fun _ =>
        (append_means _).bind fun _ => Program.means_pure _).congr fun db edited db' => ?_
    rw [if_neg hsome, seq_eq_ok, seq_eq_ok, seq_eq_ok]
    simp only [bind_eq_ok, toOption_eq_some]
    constructor
    · rintro ⟨_, _, ⟨hmay, rfl⟩, _, _, ⟨heditable, rfl⟩, _, _, ⟨hvalid, rfl⟩, _, db₁,
        ⟨hupdate, hsave⟩, _, _, ⟨hsavepoint, hrecord, rfl⟩, rfl, rfl⟩
      exact ⟨⟨hmay, heditable, hvalid, db₁, hsave, rfl⟩, .inr ⟨hupdate, hsavepoint, hrecord⟩⟩
    · rintro ⟨⟨hmay, heditable, hvalid, db₁, hsave, hpure⟩, hrest⟩
      obtain ⟨hupdate, hsavepoint, hrecord⟩ := hrest.resolve_left hchange
      cases hpure
      exact ⟨(), db, ⟨hmay, rfl⟩, (), db, ⟨heditable, rfl⟩, (), db, ⟨hvalid, rfl⟩, (), db₁,
        ⟨hupdate, hsave⟩, (), _, ⟨hsavepoint, hrecord, rfl⟩, rfl, rfl⟩

theorem requestApproval_means : Program.Means fault (requestApproval rule actor)
    fun db rule' db' => ComplyLayer.requestApproval db rule actor = .ok (db', rule') ∧
      fault .auditSavepoint = false ∧ (AuditEvent.approvalRequested actor rule).Completes fault := by
  refine ((Program.means_lift _).bind fun _ => (Program.means_lift _).bind fun _ =>
    (append_means _).bind fun _ => Program.means_pure _).congr fun db rule' db' => ?_
  rw [ComplyLayer.requestApproval, seq_eq_ok, seq_eq_ok]
  constructor
  · rintro ⟨_, _, ⟨hmay, rfl⟩, _, _, ⟨heditable, rfl⟩, _, _, ⟨hsavepoint, hrecord, rfl⟩, rfl, rfl⟩
    exact ⟨⟨hmay, heditable, rfl⟩, hsavepoint, hrecord⟩
  · rintro ⟨⟨hmay, heditable, hpure⟩, hsavepoint, hrecord⟩
    cases hpure
    exact ⟨(), db, ⟨hmay, rfl⟩, (), db, ⟨heditable, rfl⟩, (), _, ⟨hsavepoint, hrecord, rfl⟩, rfl, rfl⟩

theorem approve_means : Program.Means fault (approve rule actor reason now)
    fun db rule' db' => ComplyLayer.approve db rule actor reason now = .ok (db', rule') ∧
      fault .updateRule = false ∧ fault .auditSavepoint = false ∧
      (AuditEvent.approved actor rule reason).Completes fault := by
  refine ((Program.means_lift _).bind fun _ => (Program.means_lift _).bind fun _ =>
    (saveFields_means _ _).bind fun _ => (append_means _).bind fun _ =>
      Program.means_pure _).congr fun db rule' db' => ?_
  rw [ComplyLayer.approve, seq_eq_ok, seq_eq_ok]
  constructor
  · rintro ⟨_, _, ⟨hmay, rfl⟩, _, _, ⟨hauthor, rfl⟩, _, _, ⟨hupdate, rfl⟩, _, _,
      ⟨hsavepoint, hrecord, rfl⟩, rfl, rfl⟩
    exact ⟨⟨hmay, hauthor, rfl⟩, hupdate, hsavepoint, hrecord⟩
  · rintro ⟨⟨hmay, hauthor, hpure⟩, hupdate, hsavepoint, hrecord⟩
    cases hpure
    exact ⟨(), db, ⟨hmay, rfl⟩, (), db, ⟨hauthor, rfl⟩, (), _, ⟨hupdate, rfl⟩, (), _,
      ⟨hsavepoint, hrecord, rfl⟩, rfl, rfl⟩

theorem moveToShadow_means : Program.Means fault (moveToShadow rule actor)
    fun db rule' db' => ComplyLayer.moveToShadow db rule actor = .ok (db', rule') ∧
      fault .updateRule = false ∧ fault .auditSavepoint = false ∧
      (AuditEvent.shadowed actor rule).Completes fault := by
  refine ((Program.means_lift _).bind fun _ => (saveFields_means _ _).bind fun _ =>
    (append_means _).bind fun _ => Program.means_pure _).congr fun db rule' db' => ?_
  rw [ComplyLayer.moveToShadow, seq_eq_ok]
  constructor
  · rintro ⟨_, _, ⟨hmay, rfl⟩, _, _, ⟨hupdate, rfl⟩, _, _, ⟨hsavepoint, hrecord, rfl⟩, rfl, rfl⟩
    exact ⟨⟨hmay, rfl⟩, hupdate, hsavepoint, hrecord⟩
  · rintro ⟨⟨hmay, hpure⟩, hupdate, hsavepoint, hrecord⟩
    cases hpure
    exact ⟨(), db, ⟨hmay, rfl⟩, (), _, ⟨hupdate, rfl⟩, (), _, ⟨hsavepoint, hrecord, rfl⟩, rfl, rfl⟩

theorem publishVersion_means : Program.Means fault (publishVersion tenantId actor)
    fun db version db' => ComplyLayer.publishVersion db tenantId actor = .ok (db', version) ∧
      ∀ l ∈ [Statement.selectLatest, .selectRules, .selectLists, .insertVersion],
        fault l = false := by
  refine ((Program.means_select _ _).bind fun _ => (Program.means_select _ _).bind fun _ =>
    (Program.means_select _ _).bind fun _ => (Program.means_update _ _).bind fun _ =>
      Program.means_pure _).congr fun db version db' => ?_
  simp only [ComplyLayer.publishVersion, bind_eq_ok, toOption_eq_some, List.forall_mem_cons]
  constructor
  · rintro ⟨_, _, ⟨hlatest, rfl, rfl⟩, _, _, ⟨hrules, rfl, rfl⟩, _, _, ⟨hlists, rfl, rfl⟩, _, db₁,
      ⟨hinsert, hcreate⟩, rfl, rfl⟩
    exact ⟨⟨db', hcreate, rfl⟩, hlatest, hrules, hlists, hinsert, List.forall_mem_nil _⟩
  · rintro ⟨⟨db₁, hcreate, hpure⟩, hlatest, hrules, hlists, hinsert, -⟩
    cases hpure
    exact ⟨_, db, ⟨hlatest, rfl, rfl⟩, _, db, ⟨hrules, rfl, rfl⟩, _, db, ⟨hlists, rfl, rfl⟩, (), _,
      ⟨hinsert, hcreate⟩, rfl, rfl⟩

/-- The statements of `activate` and `archive`, but those within the savepoint of `append`. -/
def blockStatements : List Statement :=
  [.savepoint, .updateRule, .selectLatest, .selectRules, .selectLists, .insertVersion,
    .auditSavepoint, .release]

theorem publishVersion_version (h : ComplyLayer.publishVersion db tenantId actor =
    .ok (db', version)) : version.version = db.latestVersion tenantId + 1 := by
  obtain ⟨db₁, -, h⟩ := bind_eq_ok.mp h
  cases pure_eq_ok.mp h
  rfl

theorem latestVersion_saveFields (db : ManagementDb) (ruleId tenantId : String) (f : Rule → Rule) :
    (db.saveFields ruleId f).latestVersion tenantId = db.latestVersion tenantId := by
  unfold ManagementDb.saveFields
  split <;> rfl

/-- A block that saves columns of a rule, publishes and records, which is what `activate` and
`archive` are after their checks. -/
theorem publishing_means (ruleId tenantId : String) (f : Rule → Rule) (event : Nat → AuditEvent) :
    Program.Means fault (.atomic .savepoint .release .rollback do
      saveFields ruleId f
      let version ← publishVersion tenantId actor
      append (event version.version) : Management Unit)
    fun db _ db' => (event (db.latestVersion tenantId + 1)).Completes fault ∧
      (∀ l ∈ blockStatements, fault l = false) ∧ ∃ db₁ version,
        ComplyLayer.publishVersion (db.saveFields ruleId f) tenantId actor = .ok (db₁, version) ∧
          db' = db₁.record (event version.version) := by
  refine (((saveFields_means _ _).bind fun _ => publishVersion_means.bind fun version =>
    append_means (event version.version)).atomic _ _ _).congr fun db _ db' => ?_
  simp only [blockStatements, List.forall_mem_cons]
  constructor
  · rintro ⟨hsavepoint, hrelease, _, _, ⟨hupdate, rfl⟩, version, db₁,
      ⟨hpublish, hlatest, hrules, hlists, hinsert, -⟩, haudit, hrecord, rfl⟩
    rw [publishVersion_version hpublish, latestVersion_saveFields] at hrecord
    exact ⟨hrecord, ⟨hsavepoint, hupdate, hlatest, hrules, hlists, hinsert, haudit, hrelease,
      List.forall_mem_nil _⟩, db₁, version, hpublish, rfl⟩
  · rintro ⟨hrecord, ⟨hsavepoint, hupdate, hlatest, hrules, hlists, hinsert, haudit, hrelease, -⟩,
      db₁, version, hpublish, rfl⟩
    rw [← latestVersion_saveFields db ruleId tenantId f, ← publishVersion_version hpublish]
      at hrecord
    exact ⟨hsavepoint, hrelease, (), _, ⟨hupdate, rfl⟩, version, db₁,
      ⟨hpublish, hlatest, hrules, hlists, hinsert, List.forall_mem_nil _⟩, haudit, hrecord, rfl⟩

theorem activate_means : Program.Means fault (activate rule actor emergencyReason now)
    fun db rule' db' =>
      ComplyLayer.activate db rule actor emergencyReason now = .ok (db', rule') ∧
      (AuditEvent.activated actor rule emergencyReason
        (db.latestVersion rule.tenantId + 1)).Completes fault ∧
      ∀ l ∈ blockStatements, fault l = false := by
  refine ((Program.means_lift _).bind fun _ => (Program.means_lift _).bind fun _ =>
    (publishing_means _ _ _ _).bind fun _ => Program.means_pure _).congr fun db rule' db' => ?_
  rw [ComplyLayer.activate, seq_eq_ok, seq_eq_ok]
  simp only [bind_eq_ok]
  constructor
  · rintro ⟨_, _, ⟨hmay, rfl⟩, _, _, ⟨happroval, rfl⟩, _, _,
      ⟨hrecord, hfaults, db₁, version, hpublish, rfl⟩, rfl, rfl⟩
    exact ⟨⟨hmay, happroval, ⟨db₁, version⟩, hpublish, rfl⟩, hrecord, hfaults⟩
  · rintro ⟨⟨hmay, happroval, ⟨db₁, version⟩, hpublish, hpure⟩, hrecord, hfaults⟩
    cases hpure
    exact ⟨(), db, ⟨hmay, rfl⟩, (), db, ⟨happroval, rfl⟩, (), _,
      ⟨hrecord, hfaults, db₁, version, hpublish, rfl⟩, rfl, rfl⟩

theorem archive_means : Program.Means fault (archive rule actor reason)
    fun db rule' db' => ComplyLayer.archive db rule actor reason = .ok (db', rule') ∧
      (AuditEvent.archived actor rule reason
        (db.latestVersion rule.tenantId + 1)).Completes fault ∧
      ∀ l ∈ blockStatements, fault l = false := by
  refine ((Program.means_lift _).bind fun _ => (publishing_means _ _ _ _).bind fun _ =>
    Program.means_pure _).congr fun db rule' db' => ?_
  rw [ComplyLayer.archive, seq_eq_ok]
  simp only [bind_eq_ok]
  constructor
  · rintro ⟨_, _, ⟨hmay, rfl⟩, _, _, ⟨hrecord, hfaults, db₁, version, hpublish, rfl⟩, rfl, rfl⟩
    exact ⟨⟨hmay, ⟨db₁, version⟩, hpublish, rfl⟩, hrecord, hfaults⟩
  · rintro ⟨⟨hmay, ⟨db₁, version⟩, hpublish, hpure⟩, hrecord, hfaults⟩
    cases hpure
    exact ⟨(), db, ⟨hmay, rfl⟩, (), _, ⟨hrecord, hfaults, db₁, version, hpublish, rfl⟩, rfl, rfl⟩

theorem revert_means : Program.Means fault (revert tenantId actor toVersion)
    fun db version db' => ComplyLayer.revert db tenantId actor toVersion = .ok (db', version) ∧
      (∀ l ∈ [Statement.selectSource, .selectLatest, .insertVersion, .auditSavepoint],
        fault l = false) ∧
      (AuditEvent.reverted tenantId actor toVersion version.version).Completes fault := by
  refine ((Program.means_lift _).bind fun _ => (Program.means_select _ _).bind fun _ =>
    (Program.means_lift _).bind fun _ => (Program.means_select _ _).bind fun _ =>
      (Program.means_update _ _).bind fun _ => (append_means _).bind fun _ =>
        Program.means_pure _).congr fun db version db' => ?_
  rw [ComplyLayer.revert, seq_eq_ok]
  simp only [bind_eq_ok, toOption_eq_some, List.forall_mem_cons]
  constructor
  · rintro ⟨_, _, ⟨hmay, rfl⟩, _, _, ⟨hsource, rfl, rfl⟩, source, _, ⟨hfound, rfl⟩, _, _,
      ⟨hlatest, rfl, rfl⟩, _, db₁, ⟨hinsert, hcreate⟩, _, _, ⟨haudit, hrecord, rfl⟩, rfl, rfl⟩
    exact ⟨⟨hmay, source, hfound, db₁, hcreate, rfl⟩,
      ⟨hsource, hlatest, hinsert, haudit, List.forall_mem_nil _⟩, hrecord⟩
  · rintro ⟨⟨hmay, source, hfound, db₁, hcreate, hpure⟩,
      ⟨hsource, hlatest, hinsert, haudit, -⟩, hrecord⟩
    cases hpure
    exact ⟨(), db, ⟨hmay, rfl⟩, _, db, ⟨hsource, rfl, rfl⟩, source, db, ⟨hfound, rfl⟩, _, db,
      ⟨hlatest, rfl, rfl⟩, (), db₁, ⟨hinsert, hcreate⟩, (), _, ⟨haudit, hrecord, rfl⟩, rfl, rfl⟩

/-- An operation on the rule of a request. -/
theorem loading_means {p : Rule → Management α} {R : Rule → ManagementDb → α → ManagementDb → Prop}
    (h : ∀ rule, Program.Means fault (p rule) (R rule)) (g : Rule → α → β) :
    Program.Means fault (do
      let rule ← load tenantId ruleId
      let a ← p rule
      pure (g rule a))
    fun db b db' => ∃ rule a, fault .selectRule = false ∧ db.load tenantId ruleId = .ok rule ∧
      R rule db a db' ∧ b = g rule a := by
  refine ((load_means _ _).bind fun rule => (h rule).bind fun _ => Program.means_pure _).congr
    fun db b db' => ?_
  constructor
  · rintro ⟨rule, _, ⟨hselect, hload, rfl⟩, a, _, hR, rfl, rfl⟩
    exact ⟨rule, a, hselect, hload, hR, rfl⟩
  · rintro ⟨rule, a, hselect, hload, hR, rfl⟩
    exact ⟨rule, db, ⟨hselect, hload, rfl⟩, a, db', hR, rfl, rfl⟩

end Management

open Management in
/-- An operation that succeeds leaves what it does when nothing can fail. -/
theorem LifecycleStep.transact_ok {s : LifecycleStep} {fault : Statement → Bool}
    (h : (s.transact py).request fault db = (.ok entries, db')) :
    s.perform py db = .ok (db', entries) := by
  obtain ⟨tenantId, actor, op⟩ := s
  cases op with
  | createDraft ruleId content =>
    obtain ⟨rule, _, ⟨hcreate, -⟩, rfl, rfl⟩ :=
      (createDraft_means.bind fun _ => Program.means_pure _).request.mp h
    exact bind_eq_ok.mpr ⟨_, hcreate, rfl⟩
  | editDraft ruleId patch =>
    obtain ⟨rule, edited, -, hload, ⟨hedit, -⟩, rfl⟩ :=
      (loading_means (fun _ => editDraft_means) _).request.mp h
    exact bind_eq_ok.mpr ⟨rule, hload, bind_eq_ok.mpr ⟨_, hedit, rfl⟩⟩
  | requestApproval ruleId =>
    obtain ⟨rule, _, -, hload, ⟨hrequest, -⟩, rfl⟩ :=
      (loading_means (fun _ => requestApproval_means) _).request.mp h
    exact bind_eq_ok.mpr ⟨rule, hload, bind_eq_ok.mpr ⟨_, hrequest, rfl⟩⟩
  | approve ruleId reason now =>
    obtain ⟨rule, approved, -, hload, ⟨happrove, -⟩, rfl⟩ :=
      (loading_means (fun _ => approve_means) _).request.mp h
    exact bind_eq_ok.mpr ⟨rule, hload, bind_eq_ok.mpr ⟨_, happrove, rfl⟩⟩
  | moveToShadow ruleId =>
    obtain ⟨rule, _, -, hload, ⟨hshadow, -⟩, rfl⟩ :=
      (loading_means (fun _ => moveToShadow_means) _).request.mp h
    exact bind_eq_ok.mpr ⟨rule, hload, bind_eq_ok.mpr ⟨_, hshadow, rfl⟩⟩
  | activate ruleId emergencyReason now =>
    obtain ⟨rule, _, -, hload, ⟨hactivate, -⟩, rfl⟩ :=
      (loading_means (fun _ => activate_means) _).request.mp h
    exact bind_eq_ok.mpr ⟨rule, hload, bind_eq_ok.mpr ⟨_, hactivate, rfl⟩⟩
  | archive ruleId reason =>
    obtain ⟨rule, _, -, hload, ⟨harchive, -⟩, rfl⟩ :=
      (loading_means (fun _ => archive_means) _).request.mp h
    exact bind_eq_ok.mpr ⟨rule, hload, bind_eq_ok.mpr ⟨_, harchive, rfl⟩⟩
  | revert toVersion =>
    obtain ⟨version, _, ⟨hrevert, -⟩, rfl, rfl⟩ :=
      (revert_means.bind fun _ => Program.means_pure _).request.mp h
    exact bind_eq_ok.mpr ⟨_, hrevert, rfl⟩

end ComplyLayer
