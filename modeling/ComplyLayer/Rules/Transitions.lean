import ComplyLayer.Rules.Lifecycle
import ComplyLayer.Theory.Outcomes
import ComplyLayer.Theory.Runs

/-!
# Runs of the lifecycle

A request loads the rule it names and performs one operation on it; a refused one changes nothing.
`LifecycleEffect` says once what an operation can do to the rules, the versions and the history of
who created, edited and approved what. Every invariant of a run is derived from it.
-/

namespace ComplyLayer

open Theory

inductive LifecycleOp where
  | createDraft (ruleId : String) (content : RuleContent)
  | editDraft (ruleId : String) (patch : RulePatch)
  | requestApproval (ruleId : String)
  | approve (ruleId : String) (reason : Value) (now : Int)
  | moveToShadow (ruleId : String)
  | activate (ruleId : String) (emergencyReason : Value) (now : Int)
  | archive (ruleId : String) (reason : Value)
  | revert (toVersion : Nat)

/-- An operation by an actor of a tenant. -/
structure LifecycleStep where
  tenantId : String
  actor : Actor
  op : LifecycleOp

inductive Authorship where
  | created | edited | approved
  deriving DecidableEq, Repr

/-- Who created, edited or approved a rule, and the rule as that left it. -/
structure Entry where
  actor : Actor
  act : Authorship
  rule : Rule

structure Trail where
  db : ManagementDb := {}
  history : List Entry := []

def ManagementDb.load (db : ManagementDb) (tenantId id : String) : Except Refusal Rule :=
  match db.rule? tenantId id with
  | some rule => .ok rule
  | none => .error .notFound

/-- Perform an operation, and say what it adds to the history. -/
def LifecycleStep.perform (py : Python) (db : ManagementDb) (s : LifecycleStep) :
    Except Refusal (ManagementDb × List Entry) :=
  match s.op with
  | .createDraft ruleId content => do
    let (db', rule) ← ComplyLayer.createDraft py db s.tenantId s.actor ruleId content
    pure (db', [⟨s.actor, .created, rule⟩])
  | .editDraft ruleId patch => do
    let rule ← db.load s.tenantId ruleId
    let (db', edited) ← ComplyLayer.editDraft py db rule s.actor patch
    pure (db', if edited.content = rule.content then [] else [⟨s.actor, .edited, edited⟩])
  | .requestApproval ruleId => do
    let rule ← db.load s.tenantId ruleId
    let (db', _) ← ComplyLayer.requestApproval db rule s.actor
    pure (db', [])
  | .approve ruleId reason now => do
    let rule ← db.load s.tenantId ruleId
    let (db', approved) ← ComplyLayer.approve db rule s.actor reason now
    pure (db', [⟨s.actor, .approved, approved⟩])
  | .moveToShadow ruleId => do
    let rule ← db.load s.tenantId ruleId
    let (db', _) ← ComplyLayer.moveToShadow db rule s.actor
    pure (db', [])
  | .activate ruleId emergencyReason now => do
    let rule ← db.load s.tenantId ruleId
    let (db', _) ← ComplyLayer.activate db rule s.actor emergencyReason now
    pure (db', [])
  | .archive ruleId reason => do
    let rule ← db.load s.tenantId ruleId
    let (db', _) ← ComplyLayer.archive db rule s.actor reason
    pure (db', [])
  | .revert toVersion => do
    let (db', _) ← ComplyLayer.revert db s.tenantId s.actor toVersion
    pure (db', [])

/-- One request of a run. -/
def lifecycleStep (py : Python) (w : Trail) (s : LifecycleStep) : Option Trail :=
  match s.perform py w.db with
  | .ok (db, entries) => some ⟨db, w.history ++ entries⟩
  | .error _ => some w

/-! ## What an operation can do -/

/-- The rules, versions and lists are the same. -/
structure ManagementDb.Same (db db' : ManagementDb) : Prop where
  rules : db'.rules = db.rules
  versions : db'.versions = db.versions
  lists : db'.lists = db.lists

/-- The rules after an operation on one loaded row, with the versions and lists as they were. -/
structure ManagementDb.Puts (db db' : ManagementDb) (row : Rule) : Prop where
  rules : db'.rules = db.rules.put row
  versions : db'.versions = db.versions
  lists : db'.lists = db.lists

/-- The rules after an operation on one loaded row that publishes them. -/
structure ManagementDb.PutsAndPublishes (db db' : ManagementDb) (row : Rule) (publisher : String) :
    Prop where
  rules : db'.rules = db.rules.put row
  lists : db'.lists = db.lists
  versions : db.versions.insert?
      ({ db with rules := db.rules.put row }.publication row.tenantId publisher) = some db'.versions

/-- What a step can do to a trail. -/
inductive LifecycleEffect (w : Trail) (s : LifecycleStep) : Trail → Prop
  | quiet (same : w.db.Same db) : LifecycleEffect w s ⟨db, w.history⟩
  | created (ruleId : String) (content : RuleContent) (op : s.op = .createDraft ruleId content)
      (may : may s.actor.role .createDraft)
      (insert : w.db.rules.insert?
        { id := ruleId, tenantId := s.tenantId, content := content, createdBy := s.actor.id } =
          some db.rules)
      (versions : db.versions = w.db.versions) (lists : db.lists = w.db.lists) :
      LifecycleEffect w s ⟨db, w.history ++ [⟨s.actor, .created,
        { id := ruleId, tenantId := s.tenantId, content := content, createdBy := s.actor.id }⟩]⟩
  | edited (rule : Rule) (patch : RulePatch) (op : s.op = .editDraft rule.id patch)
      (may : may s.actor.role .editDraft) (found : w.db.rules.find? rule.id = some rule)
      (tenant : rule.tenantId = s.tenantId) (editable : rule.state.Editable)
      (change : (rule.edit patch).content ≠ rule.content)
      (puts : w.db.Puts db (rule.edit patch)) :
      LifecycleEffect w s ⟨db, w.history ++ [⟨s.actor, .edited, rule.edit patch⟩]⟩
  | approved (rule : Rule) (reason : Value) (now : Int) (op : s.op = .approve rule.id reason now)
      (may : may s.actor.role .approve) (found : w.db.rules.find? rule.id = some rule)
      (tenant : rule.tenantId = s.tenantId) (notAuthor : s.actor.id ≠ rule.createdBy)
      (puts : w.db.Puts db { rule with approvedBy := s.actor.id, approvedAt := some now }) :
      LifecycleEffect w s ⟨db, w.history ++ [⟨s.actor, .approved,
        { rule with approvedBy := s.actor.id, approvedAt := some now }⟩]⟩
  | shadowed (rule : Rule) (op : s.op = .moveToShadow rule.id) (may : may s.actor.role .shadow)
      (found : w.db.rules.find? rule.id = some rule) (tenant : rule.tenantId = s.tenantId)
      (puts : w.db.Puts db { rule with state := .shadow }) : LifecycleEffect w s ⟨db, w.history⟩
  | activated (rule : Rule) (emergencyReason : Value) (now : Int)
      (op : s.op = .activate rule.id emergencyReason now) (may : may s.actor.role .activate)
      (found : w.db.rules.find? rule.id = some rule) (tenant : rule.tenantId = s.tenantId)
      (approval : rule.approvedBy ≠ "" ∨
        emergencyReason.truthy ∧ ComplyLayer.may s.actor.role .emergencyOverride)
      (puts : w.db.PutsAndPublishes db { rule with state := .active, activatedAt := some now }
        s.actor.id) : LifecycleEffect w s ⟨db, w.history⟩
  | archived (rule : Rule) (reason : Value) (op : s.op = .archive rule.id reason)
      (may : may s.actor.role .archive) (found : w.db.rules.find? rule.id = some rule)
      (tenant : rule.tenantId = s.tenantId)
      (puts : w.db.PutsAndPublishes db { rule with state := .archived } s.actor.id) :
      LifecycleEffect w s ⟨db, w.history⟩
  | reverted (toVersion : Nat) (source : RuleSetVersion) (op : s.op = .revert toVersion)
      (may : may s.actor.role .revert)
      (found : w.db.versions.find? (s.tenantId, toVersion) = some source)
      (rules : db.rules = w.db.rules) (lists : db.lists = w.db.lists)
      (versions : w.db.versions.insert?
        { source with
          version := w.db.latestVersion s.tenantId + 1
          publishedBy := s.actor.id } = some db.versions) : LifecycleEffect w s ⟨db, w.history⟩

section
variable {py : Python} {db db' : ManagementDb} {rule rule' : Rule} {actor : Actor}

theorem permit_eq_ok_iff : permit actor action = .ok () ↔ may actor.role action := by
  rw [permit, mapError_eq_ok, require_eq_ok_iff]

theorem permitNotAuthor_eq_ok_iff :
    permitNotAuthor actor authorId action = .ok () ↔ actor.id ≠ authorId := by
  rw [permitNotAuthor, mapError_eq_ok, requireNotAuthor_eq_ok_iff]

theorem requireEditable_eq_ok_iff :
    requireEditable rule message = .ok () ↔ rule.state.Editable := by
  unfold requireEditable
  split <;> simp_all

theorem requireApproved_eq_ok_iff : requireApproved rule actor emergencyReason = .ok () ↔
    rule.approvedBy ≠ "" ∨ emergencyReason.truthy ∧ may actor.role .emergencyOverride := by
  unfold requireApproved
  split
  · simp_all
  · split
    · rw [permit_eq_ok_iff]
      simp_all
    · simp_all

theorem ManagementDb.load_eq_ok_iff : db.load tenantId ruleId = .ok rule ↔
    db.rules.find? ruleId = some rule ∧ rule.tenantId = tenantId := by
  have hrule : db.rule? tenantId ruleId = some rule ↔
      db.rules.find? ruleId = some rule ∧ rule.tenantId = tenantId :=
    Table.find?_filter_eq_some_iff
  rw [← hrule, load]
  cases db.rule? tenantId ruleId <;> simp

theorem ManagementDb.createRule_eq_ok (h : db.createRule rule = .ok db') :
    db.rules.insert? rule = some db'.rules ∧ db'.versions = db.versions ∧ db'.lists = db.lists := by
  unfold createRule at h
  split at h
  · cases h
  · split at h
    · rename_i rules hinsert
      cases h
      exact ⟨hinsert, rfl, rfl⟩
    · cases h

theorem ManagementDb.saveRule_eq_ok (h : db.saveRule rule = .ok db') : db.Puts db' rule := by
  unfold saveRule at h
  split at h
  · cases h
  · cases h
    exact ⟨rfl, rfl, rfl⟩

theorem ManagementDb.puts_saveFields (hfound : db.rules.find? ruleId = some row)
    (f : Rule → Rule) : db.Puts (db.saveFields ruleId f) (f row) := by
  unfold saveFields
  rw [hfound]
  exact ⟨rfl, rfl, rfl⟩

theorem changesOf_isEmpty_iff {before after : RuleContent} :
    (changesOf before after).isEmpty ↔ after = before := by
  have htext (field b a : String) : changesOf.text field b a = [] ↔ a = b := by
    by_cases h : b = a
    · simp [changesOf.text, h]
    · simp [changesOf.text, h, Ne.symm h]
  have hpriority (b a : Int) : (if b = a then ([] : List RuleChange)
      else [⟨"priority", .int b, .int a⟩]) = [] ↔ a = b := by
    by_cases h : b = a
    · simp [h]
    · simp [h, Ne.symm h]
  cases before
  cases after
  simp only [List.isEmpty_iff, changesOf, List.append_eq_nil_iff, htext, hpriority,
    RuleContent.mk.injEq, and_assoc]

/-! ## Each operation, when it succeeds -/

theorem createDraft_eq_ok
    (h : createDraft py db tenantId actor ruleId content = .ok (db', rule)) :
    may actor.role .createDraft ∧
      rule = { id := ruleId, tenantId := tenantId, content := content, createdBy := actor.id } ∧
      db.rules.insert? rule = some db'.rules ∧ db'.versions = db.versions ∧
      db'.lists = db.lists := by
  rw [createDraft, seq_eq_ok, permit_eq_ok_iff, seq_eq_ok] at h
  obtain ⟨hmay, -, h⟩ := h
  obtain ⟨db₁, hcreate, h⟩ := bind_eq_ok.mp h
  obtain ⟨hinsert, hversions, hlists⟩ := ManagementDb.createRule_eq_ok hcreate
  cases pure_eq_ok.mp h
  exact ⟨hmay, rfl, hinsert, hversions, hlists⟩

theorem editDraft_eq_ok (h : editDraft py db rule actor patch = .ok (db', rule')) :
    may actor.role .editDraft ∧ rule.state.Editable ∧
      ((patch.apply rule.content = rule.content ∧ db' = db ∧ rule' = rule) ∨
        (patch.apply rule.content ≠ rule.content ∧ db.Puts db' (rule.edit patch) ∧
          rule' = rule.edit patch)) := by
  rw [editDraft, seq_eq_ok, permit_eq_ok_iff, seq_eq_ok, requireEditable_eq_ok_iff, seq_eq_ok] at h
  obtain ⟨hmay, heditable, -, h⟩ := h
  refine ⟨hmay, heditable, ?_⟩
  by_cases hchange : patch.apply rule.content = rule.content
  · rw [if_pos (changesOf_isEmpty_iff.mpr hchange)] at h
    cases pure_eq_ok.mp h
    exact .inl ⟨hchange, rfl, rfl⟩
  · rw [if_neg fun hempty => hchange (changesOf_isEmpty_iff.mp hempty)] at h
    obtain ⟨db₁, hsave, h⟩ := bind_eq_ok.mp h
    have hputs := ManagementDb.saveRule_eq_ok hsave
    cases pure_eq_ok.mp h
    exact .inr ⟨hchange, ⟨hputs.rules, hputs.versions, hputs.lists⟩, rfl⟩

theorem requestApproval_eq_ok (h : requestApproval db rule actor = .ok (db', rule')) :
    db.Same db' := by
  rw [requestApproval, seq_eq_ok, seq_eq_ok] at h
  cases pure_eq_ok.mp h.2.2
  exact ⟨rfl, rfl, rfl⟩

theorem approve_eq_ok (hfound : db.rules.find? rule.id = some rule)
    (h : approve db rule actor reason now = .ok (db', rule')) :
    may actor.role .approve ∧ actor.id ≠ rule.createdBy ∧
      rule' = { rule with approvedBy := actor.id, approvedAt := some now } ∧ db.Puts db' rule' := by
  rw [approve, seq_eq_ok, permit_eq_ok_iff, seq_eq_ok, permitNotAuthor_eq_ok_iff] at h
  obtain ⟨hmay, hauthor, h⟩ := h
  cases pure_eq_ok.mp h
  have hputs := ManagementDb.puts_saveFields hfound fun row =>
    { row with approvedBy := actor.id, approvedAt := some now }
  exact ⟨hmay, hauthor, rfl, ⟨hputs.rules, hputs.versions, hputs.lists⟩⟩

theorem moveToShadow_eq_ok (hfound : db.rules.find? rule.id = some rule)
    (h : moveToShadow db rule actor = .ok (db', rule')) :
    may actor.role .shadow ∧ db.Puts db' { rule with state := .shadow } := by
  rw [moveToShadow, seq_eq_ok, permit_eq_ok_iff] at h
  obtain ⟨hmay, h⟩ := h
  cases pure_eq_ok.mp h
  have hputs := ManagementDb.puts_saveFields hfound fun row => { row with state := .shadow }
  exact ⟨hmay, ⟨hputs.rules, hputs.versions, hputs.lists⟩⟩

theorem createVersion_eq_ok (h : db.createVersion version = .ok db') :
    db.versions.insert? version = some db'.versions ∧ db'.rules = db.rules ∧
      db'.lists = db.lists := by
  unfold ManagementDb.createVersion at h
  split at h
  · rename_i versions hinsert
    cases h
    exact ⟨hinsert, rfl, rfl⟩
  · cases h

theorem le_latestVersion {row : RuleSetVersion} (hmem : row ∈ db.versions.rows)
    (htenant : row.tenantId = tenantId) : row.version ≤ db.latestVersion tenantId := by
  have hle (l : List Nat) (n : Nat) (h : n ∈ l) : n ≤ l.foldr max 0 := by
    induction l with
    | nil => cases h
    | cons m l ih =>
      rcases List.mem_cons.mp h with rfl | h
      · exact Nat.le_max_left ..
      · exact Nat.le_trans (ih h) (Nat.le_max_right ..)
  refine hle _ _ (List.mem_map.mpr ⟨row, ?_, rfl⟩)
  exact List.mem_filter.mpr ⟨hmem, by simpa using htenant⟩

/-- The number of a new version is never taken. -/
theorem createVersion_ok (db : ManagementDb) (version : RuleSetVersion)
    (hnumber : version.version = db.latestVersion version.tenantId + 1) :
    ∃ versions, db.versions.insert? version = some versions ∧
      db.createVersion version = .ok { db with versions := versions } := by
  have hfree : version.perTenant ∉ db.versions.rows.map RuleSetVersion.perTenant := by
    intro hmem
    obtain ⟨row, hrow, hkey⟩ := List.mem_map.mp hmem
    have htenant : row.tenantId = version.tenantId := congrArg Prod.fst hkey
    have htaken : row.version = version.version := congrArg Prod.snd hkey
    have hle := le_latestVersion hrow htenant
    omega
  cases hinsert : db.versions.insert? version with
  | none =>
    obtain ⟨row, hrow⟩ := Option.isSome_iff_exists.mp (Table.insert?_eq_none_iff.mp hinsert)
    obtain ⟨hmem, hkey⟩ := Table.find?_eq_some_iff.mp hrow
    exact absurd (hkey ▸ List.mem_map_of_mem hmem) hfree
  | some versions =>
    refine ⟨versions, rfl, ?_⟩
    rw [ManagementDb.createVersion, hinsert]

theorem publishVersion_ok (db : ManagementDb) (tenantId : String) (actor : Actor) :
    ∃ result, publishVersion db tenantId actor = .ok result := by
  obtain ⟨versions, -, hcreate⟩ := createVersion_ok db (db.publication tenantId actor.id) rfl
  exact ⟨_, bind_eq_ok.mpr ⟨_, hcreate, rfl⟩⟩

/-- Updating one loaded row and publishing. -/
theorem saveFields_publishVersion_eq_ok (hfound : db.rules.find? rule.id = some rule)
    (f : Rule → Rule) (htenant : (f rule).tenantId = tenantId)
    (h : publishVersion (db.saveFields rule.id f) tenantId actor = .ok (db', version)) :
    db.PutsAndPublishes db' (f rule) actor.id := by
  obtain ⟨db₁, hcreate, h⟩ := bind_eq_ok.mp h
  cases pure_eq_ok.mp h
  obtain ⟨hinsert, hrules, hlists⟩ := createVersion_eq_ok hcreate
  have hsave : db.saveFields rule.id f = { db with rules := db.rules.put (f rule) } := by
    rw [ManagementDb.saveFields, hfound]
  rw [hsave] at hinsert hrules hlists
  exact ⟨hrules, hlists, by rw [htenant]; exact hinsert⟩

theorem activate_eq_ok (hfound : db.rules.find? rule.id = some rule)
    (h : activate db rule actor emergencyReason now = .ok (db', rule')) :
    may actor.role .activate ∧
      (rule.approvedBy ≠ "" ∨ emergencyReason.truthy ∧ may actor.role .emergencyOverride) ∧
      db.PutsAndPublishes db' { rule with state := .active, activatedAt := some now } actor.id := by
  rw [activate, seq_eq_ok, permit_eq_ok_iff, seq_eq_ok, requireApproved_eq_ok_iff] at h
  obtain ⟨hmay, happroval, h⟩ := h
  obtain ⟨⟨db₁, version⟩, hpublish, h⟩ := bind_eq_ok.mp h
  have hputs := saveFields_publishVersion_eq_ok hfound
    (fun row => { row with state := .active, activatedAt := some now }) rfl hpublish
  cases pure_eq_ok.mp h
  exact ⟨hmay, happroval, ⟨hputs.rules, hputs.lists, hputs.versions⟩⟩

theorem archive_eq_ok (hfound : db.rules.find? rule.id = some rule)
    (h : archive db rule actor reason = .ok (db', rule')) :
    may actor.role .archive ∧
      db.PutsAndPublishes db' { rule with state := .archived } actor.id := by
  rw [archive, seq_eq_ok, permit_eq_ok_iff] at h
  obtain ⟨hmay, h⟩ := h
  obtain ⟨⟨db₁, version⟩, hpublish, h⟩ := bind_eq_ok.mp h
  have hputs := saveFields_publishVersion_eq_ok hfound
    (fun row => { row with state := .archived }) rfl hpublish
  cases pure_eq_ok.mp h
  exact ⟨hmay, ⟨hputs.rules, hputs.lists, hputs.versions⟩⟩

theorem sourceVersion_eq_ok_iff : sourceVersion db tenantId toVersion = .ok source ↔
    db.versions.find? (tenantId, toVersion) = some source := by
  unfold sourceVersion
  cases db.versions.find? (tenantId, toVersion) with
  | none => simp
  | some found => simp

theorem revert_eq_ok (h : revert db tenantId actor toVersion = .ok (db', version)) :
    may actor.role .revert ∧ ∃ source, db.versions.find? (tenantId, toVersion) = some source ∧
      db'.rules = db.rules ∧ db'.lists = db.lists ∧
      db.versions.insert?
        { source with version := db.latestVersion tenantId + 1, publishedBy := actor.id } =
          some db'.versions := by
  rw [revert, seq_eq_ok, permit_eq_ok_iff] at h
  obtain ⟨hmay, h⟩ := h
  obtain ⟨source, hsource, h⟩ := bind_eq_ok.mp h
  obtain ⟨db₁, hcreate, h⟩ := bind_eq_ok.mp h
  cases pure_eq_ok.mp h
  obtain ⟨hinsert, hrules, hlists⟩ := createVersion_eq_ok hcreate
  exact ⟨hmay, source, sourceVersion_eq_ok_iff.mp hsource, hrules, hlists, hinsert⟩

/-- `move_to_shadow` succeeds on any rule, for whoever may shadow. -/
theorem moveToShadow_of_may (hfound : db.rules.find? rule.id = some rule)
    (hmay : may actor.role .shadow) : ∃ db', moveToShadow db rule actor =
      .ok (db', { rule with state := .shadow }) ∧ db.Puts db' { rule with state := .shadow } := by
  have hputs := ManagementDb.puts_saveFields hfound fun row => { row with state := .shadow }
  exact ⟨_, seq_eq_ok.mpr ⟨permit_eq_ok_iff.mpr hmay, rfl⟩,
    ⟨hputs.rules, hputs.versions, hputs.lists⟩⟩

/-- `edit_draft` of an editable rule succeeds, for whoever may edit it, with a patch that parses, to
a name and version that are free. -/
theorem editDraft_of_may (hmay : may actor.role .editDraft) (heditable : rule.state.Editable)
    (hvalid : validatePatch py patch = .ok ()) (hfree : db.nameVersionTaken (rule.edit patch) = false)
    (hchange : (rule.edit patch).content ≠ rule.content) :
    ∃ db', editDraft py db rule actor patch = .ok (db', rule.edit patch) ∧
      db.Puts db' (rule.edit patch) := by
  have hsave : db.saveRule (rule.edit patch) =
      .ok { db with rules := db.rules.put (rule.edit patch) } := by
    rw [ManagementDb.saveRule, if_neg (Bool.eq_false_iff.mp hfree)]
  have hnonempty : ¬ (changesOf rule.content (patch.apply rule.content)).isEmpty :=
    fun hempty => hchange (changesOf_isEmpty_iff.mp hempty)
  obtain ⟨db', hedit⟩ : ∃ db', editDraft py db rule actor patch = .ok (db', rule.edit patch) := by
    rw [editDraft, permit_eq_ok_iff.mpr hmay, requireEditable_eq_ok_iff.mpr heditable, hvalid]
    dsimp only
    rw [if_neg hnonempty, hsave]
    exact ⟨_, rfl⟩
  obtain ⟨-, -, ⟨hsame, -⟩ | ⟨-, hputs, -⟩⟩ := editDraft_eq_ok hedit
  · exact absurd hsame hchange
  · exact ⟨db', hedit, hputs⟩

end

/-- A row a tenant loads by an id has that id. -/
theorem load_found {db : ManagementDb} (h : db.load tenantId ruleId = .ok rule) :
    db.rules.find? rule.id = some rule ∧ rule.id = ruleId ∧ rule.tenantId = tenantId := by
  obtain ⟨hfind, htenant⟩ := ManagementDb.load_eq_ok_iff.mp h
  have hid : rule.id = ruleId := (Table.find?_eq_some_iff.mp hfind).2
  exact ⟨hid ▸ hfind, hid, htenant⟩

/-- **What a lifecycle step does.** -/
theorem lifecycleStep_effect {py : Python} {w w' : Trail}
    (h : lifecycleStep py w s = some w') : LifecycleEffect w s w' := by
  unfold lifecycleStep at h
  cases hp : s.perform py w.db with
  | error e =>
    rw [hp] at h
    cases h
    exact .quiet ⟨rfl, rfl, rfl⟩
  | ok result =>
    obtain ⟨db, entries⟩ := result
    rw [hp] at h
    cases h
    obtain ⟨tenantId, actor, op⟩ := s
    cases op with
    | createDraft ruleId content =>
      obtain ⟨⟨db₁, rule⟩, hcreate, h⟩ := bind_eq_ok.mp hp
      cases pure_eq_ok.mp h
      obtain ⟨hmay, rfl, hinsert, hversions, hlists⟩ := createDraft_eq_ok hcreate
      exact .created ruleId content rfl hmay hinsert hversions hlists
    | editDraft ruleId patch =>
      obtain ⟨rule, hload, h⟩ := bind_eq_ok.mp hp
      obtain ⟨⟨db₁, edited⟩, hedit, h⟩ := bind_eq_ok.mp h
      cases pure_eq_ok.mp h
      obtain ⟨hfound, rfl, htenant⟩ := load_found hload
      obtain ⟨hmay, heditable, ⟨-, rfl, rfl⟩ | ⟨hchange, hputs, rfl⟩⟩ := editDraft_eq_ok hedit
      · rw [if_pos rfl, List.append_nil]
        exact .quiet ⟨rfl, rfl, rfl⟩
      · have hcontent : (rule.edit patch).content ≠ rule.content := hchange
        rw [if_neg hcontent]
        exact .edited rule patch rfl hmay hfound htenant heditable hchange hputs
    | requestApproval ruleId =>
      obtain ⟨rule, hload, h⟩ := bind_eq_ok.mp hp
      obtain ⟨⟨db₁, rule'⟩, hrequest, h⟩ := bind_eq_ok.mp h
      cases pure_eq_ok.mp h
      rw [List.append_nil]
      exact .quiet (requestApproval_eq_ok hrequest)
    | approve ruleId reason now =>
      obtain ⟨rule, hload, h⟩ := bind_eq_ok.mp hp
      obtain ⟨⟨db₁, rule'⟩, happrove, h⟩ := bind_eq_ok.mp h
      cases pure_eq_ok.mp h
      obtain ⟨hfound, rfl, htenant⟩ := load_found hload
      obtain ⟨hmay, hauthor, rfl, hputs⟩ := approve_eq_ok hfound happrove
      exact .approved rule reason now rfl hmay hfound htenant hauthor hputs
    | moveToShadow ruleId =>
      obtain ⟨rule, hload, h⟩ := bind_eq_ok.mp hp
      obtain ⟨⟨db₁, rule'⟩, hshadow, h⟩ := bind_eq_ok.mp h
      cases pure_eq_ok.mp h
      obtain ⟨hfound, rfl, htenant⟩ := load_found hload
      obtain ⟨hmay, hputs⟩ := moveToShadow_eq_ok hfound hshadow
      rw [List.append_nil]
      exact .shadowed rule rfl hmay hfound htenant hputs
    | activate ruleId emergencyReason now =>
      obtain ⟨rule, hload, h⟩ := bind_eq_ok.mp hp
      obtain ⟨⟨db₁, rule'⟩, hactivate, h⟩ := bind_eq_ok.mp h
      cases pure_eq_ok.mp h
      obtain ⟨hfound, rfl, htenant⟩ := load_found hload
      obtain ⟨hmay, happroval, hputs⟩ := activate_eq_ok hfound hactivate
      rw [List.append_nil]
      exact .activated rule emergencyReason now rfl hmay hfound htenant happroval hputs
    | archive ruleId reason =>
      obtain ⟨rule, hload, h⟩ := bind_eq_ok.mp hp
      obtain ⟨⟨db₁, rule'⟩, harchive, h⟩ := bind_eq_ok.mp h
      cases pure_eq_ok.mp h
      obtain ⟨hfound, rfl, htenant⟩ := load_found hload
      obtain ⟨hmay, hputs⟩ := archive_eq_ok hfound harchive
      rw [List.append_nil]
      exact .archived rule reason rfl hmay hfound htenant hputs
    | revert toVersion =>
      obtain ⟨⟨db₁, version⟩, hrevert, h⟩ := bind_eq_ok.mp hp
      cases pure_eq_ok.mp h
      obtain ⟨hmay, source, hfound, hrules, hlists, hinsert⟩ := revert_eq_ok hrevert
      rw [List.append_nil]
      exact .reverted toVersion source rfl hmay hfound hrules hlists hinsert

/-! ## What an operation can do to one rule -/

/-- What a step leaves of the row of a rule, from what there was of it before. -/
inductive RowEffect (s : LifecycleStep) : Option Rule → Rule → Prop
  | kept (row : Rule) : RowEffect s (some row) row
  | created (ruleId : String) (content : RuleContent) (op : s.op = .createDraft ruleId content) :
      RowEffect s none
        { id := ruleId, tenantId := s.tenantId, content := content, createdBy := s.actor.id }
  | edited (rule : Rule) (patch : RulePatch) (op : s.op = .editDraft rule.id patch)
      (tenant : rule.tenantId = s.tenantId) (editable : rule.state.Editable)
      (change : (rule.edit patch).content ≠ rule.content) :
      RowEffect s (some rule) (rule.edit patch)
  | approved (rule : Rule) (reason : Value) (now : Int) (op : s.op = .approve rule.id reason now)
      (tenant : rule.tenantId = s.tenantId) (may : may s.actor.role .approve)
      (notAuthor : s.actor.id ≠ rule.createdBy) :
      RowEffect s (some rule) { rule with approvedBy := s.actor.id, approvedAt := some now }
  | shadowed (rule : Rule) (op : s.op = .moveToShadow rule.id)
      (tenant : rule.tenantId = s.tenantId) : RowEffect s (some rule) { rule with state := .shadow }
  | activated (rule : Rule) (emergencyReason : Value) (now : Int)
      (op : s.op = .activate rule.id emergencyReason now) (tenant : rule.tenantId = s.tenantId)
      (approval : rule.approvedBy ≠ "" ∨
        emergencyReason.truthy ∧ ComplyLayer.may s.actor.role .emergencyOverride) :
      RowEffect s (some rule) { rule with state := .active, activatedAt := some now }
  | archived (rule : Rule) (reason : Value) (op : s.op = .archive rule.id reason)
      (tenant : rule.tenantId = s.tenantId) :
      RowEffect s (some rule) { rule with state := .archived }

/-- A row that is put in the table, and every other one as it was. -/
theorem RowEffect.of_put {s : LifecycleStep} {rules : Table Rule.id} {old row row' : Rule}
    (hfound : rules.find? row.id = some old) (heffect : RowEffect s (some old) row)
    (hrow : (rules.put row).find? ruleId = some row') : RowEffect s (rules.find? ruleId) row' := by
  rw [Table.find?_put_of_found hfound] at hrow
  split at hrow
  · rename_i hid
    cases hrow
    rw [hid, hfound]
    exact heffect
  · rw [hrow]
    exact .kept row'

/-- No lifecycle operation touches a named list. -/
theorem LifecycleEffect.lists {w w' : Trail} {s : LifecycleStep} (h : LifecycleEffect w s w') :
    w'.db.lists = w.db.lists := by
  cases h with
  | quiet same => exact same.lists
  | created ruleId content op may insert versions lists => exact lists
  | edited rule patch op may found tenant editable change puts => exact puts.lists
  | approved rule reason now op may found tenant notAuthor puts => exact puts.lists
  | shadowed rule op may found tenant puts => exact puts.lists
  | activated rule emergencyReason now op may found tenant approval puts => exact puts.lists
  | archived rule reason op may found tenant puts => exact puts.lists
  | reverted toVersion source op may found rules lists versions => exact lists

theorem LifecycleEffect.row {w w' : Trail} {s : LifecycleStep} {row : Rule}
    (h : LifecycleEffect w s w') (hrow : w'.db.rules.find? ruleId = some row) :
    RowEffect s (w.db.rules.find? ruleId) row := by
  cases h with
  | quiet same =>
    rw [← same.rules, hrow]
    exact .kept row
  | created newId content op may insert versions lists =>
    rw [Table.find?_insert? insert] at hrow
    split at hrow
    · rename_i hid
      have hnew := Table.find?_eq_none_iff.mpr (Table.insert?_eq_some_iff.mp insert).1
      cases hrow
      rw [← hid, hnew]
      exact .created newId content op
    · rw [hrow]
      exact .kept row
  | edited rule patch op may found tenant editable change puts =>
    have hold : w.db.rules.find? (rule.edit patch).id = some rule := found
    rw [puts.rules] at hrow
    exact .of_put hold (.edited rule patch op tenant editable change) hrow
  | approved rule reason now op may found tenant notAuthor puts =>
    let approved : Rule := { rule with approvedBy := s.actor.id, approvedAt := some now }
    have hold : w.db.rules.find? approved.id = some rule := found
    rw [puts.rules] at hrow
    exact .of_put hold (.approved rule reason now op tenant may notAuthor) hrow
  | shadowed rule op may found tenant puts =>
    let shadowed : Rule := { rule with state := .shadow }
    have hold : w.db.rules.find? shadowed.id = some rule := found
    rw [puts.rules] at hrow
    exact .of_put hold (.shadowed rule op tenant) hrow
  | activated rule emergencyReason now op may found tenant approval puts =>
    let activated : Rule := { rule with state := .active, activatedAt := some now }
    have hold : w.db.rules.find? activated.id = some rule := found
    rw [puts.rules] at hrow
    exact .of_put hold (.activated rule emergencyReason now op tenant approval) hrow
  | archived rule reason op may found tenant puts =>
    let archived : Rule := { rule with state := .archived }
    have hold : w.db.rules.find? archived.id = some rule := found
    rw [puts.rules] at hrow
    exact .of_put hold (.archived rule reason op tenant) hrow
  | reverted toVersion source op may found rules lists versions =>
    rw [← rules, hrow]
    exact .kept row

/-! ## What a step keeps of every row -/

/-- Every row has the property, of the history and the row. -/
def Trail.Rows (P : List Entry → Rule → Prop) (w : Trail) : Prop :=
  ∀ row, w.db.rules.find? row.id = some row → P w.history row

theorem Trail.Rows.of_put {P : List Entry → Rule → Prop} {w : Trail} {db : ManagementDb}
    {row old : Rule} (h : w.Rows P) (hrules : db.rules = w.db.rules.put row)
    (hfound : w.db.rules.find? row.id = some old)
    (hput : P w.history row) : Trail.Rows P ⟨db, w.history⟩ := by
  intro other hother
  rw [hrules, Table.find?_put_of_found hfound] at hother
  split at hother
  · cases hother
    exact hput
  · exact h other hother

/-- A step that adds an entry about the row it writes. -/
theorem Trail.Rows.of_entry {P : List Entry → Rule → Prop} {w : Trail} {db : ManagementDb}
    {entry : Entry} (h : w.Rows P)
    (happend : ∀ row e, e.rule.id ≠ row.id → P w.history row → P (w.history ++ [e]) row)
    (hfind : ∀ k, db.rules.find? k =
      if k = entry.rule.id then some entry.rule else w.db.rules.find? k)
    (hentry : P (w.history ++ [entry]) entry.rule) : Trail.Rows P ⟨db, w.history ++ [entry]⟩ := by
  intro other hother
  rw [hfind] at hother
  split at hother
  · cases hother
    exact hentry
  · rename_i hne
    exact happend other entry (Ne.symm hne) (h other hother)

/-- A property of rows holds after a step when what is written of other rules, and a change of
state, does not touch it, and creations, edits and approvals keep it. -/
theorem Trail.Rows.step {P : List Entry → Rule → Prop} {w w' : Trail} {s : LifecycleStep}
    (h : w.Rows P) (heffect : LifecycleEffect w s w')
    (happend : ∀ row e, e.rule.id ≠ row.id → P w.history row → P (w.history ++ [e]) row)
    (hstate : ∀ row state activatedAt, P w.history row →
      P w.history { row with state := state, activatedAt := activatedAt })
    (hcreated : ∀ ruleId content, w.db.rules.find? ruleId = none →
      P (w.history ++ [⟨s.actor, .created,
          { id := ruleId, tenantId := s.tenantId, content := content, createdBy := s.actor.id }⟩])
        { id := ruleId, tenantId := s.tenantId, content := content, createdBy := s.actor.id })
    (hedited : ∀ rule patch, w.db.rules.find? rule.id = some rule → P w.history rule →
      P (w.history ++ [⟨s.actor, .edited, rule.edit patch⟩]) (rule.edit patch))
    (happroved : ∀ rule reason now, s.op = .approve rule.id reason now →
      may s.actor.role .approve → w.db.rules.find? rule.id = some rule →
      s.actor.id ≠ rule.createdBy → P w.history rule →
      P (w.history ++ [⟨s.actor, .approved,
          { rule with approvedBy := s.actor.id, approvedAt := some now }⟩])
        { rule with approvedBy := s.actor.id, approvedAt := some now }) : w'.Rows P := by
  cases heffect with
  | quiet same =>
    intro row hrow
    rw [same.rules] at hrow
    exact h row hrow
  | created ruleId content op may insert versions lists =>
    have hnew : w.db.rules.find? ruleId = none :=
      Table.find?_eq_none_iff.mpr (Table.insert?_eq_some_iff.mp insert).1
    refine h.of_entry happend (fun k => ?_) (hcreated ruleId content hnew)
    rw [Table.find?_insert? insert]
    simp only [eq_comm]
  | edited rule patch op may found tenant editable change puts =>
    have hold : w.db.rules.find? (rule.edit patch).id = some rule := found
    refine h.of_entry happend (fun k => ?_) (hedited rule patch found (h rule found))
    rw [puts.rules, Table.find?_put_of_found hold]
  | approved rule reason now op may found tenant notAuthor puts =>
    let row : Rule := { rule with approvedBy := s.actor.id, approvedAt := some now }
    have hold : w.db.rules.find? row.id = some rule := found
    refine h.of_entry happend (fun k => ?_)
      (happroved rule reason now op may found notAuthor (h rule found))
    rw [puts.rules, Table.find?_put_of_found hold]
  | shadowed rule op may found tenant puts =>
    exact h.of_put puts.rules found (hstate rule .shadow rule.activatedAt (h rule found))
  | activated rule emergencyReason now op may found tenant approval puts =>
    exact h.of_put puts.rules found (hstate rule .active (some now) (h rule found))
  | archived rule reason op may found tenant puts =>
    exact h.of_put puts.rules found (hstate rule .archived rule.activatedAt (h rule found))
  | reverted toVersion source op may found rules lists versions =>
    intro row hrow
    rw [rules] at hrow
    exact h row hrow

/-- The history is about rules that are there. -/
def Trail.Known (w : Trail) : Prop :=
  ∀ e ∈ w.history, (w.db.rules.find? e.rule.id).isSome

theorem Trail.Known.step {w w' : Trail} {s : LifecycleStep} (h : w.Known)
    (heffect : LifecycleEffect w s w') : w'.Known := by
  have hput {db : ManagementDb} {row old : Rule} (hfound : w.db.rules.find? row.id = some old)
      (hrules : db.rules = w.db.rules.put row) (ruleId : String)
      (hknown : (w.db.rules.find? ruleId).isSome ∨ ruleId = row.id) :
      (db.rules.find? ruleId).isSome := by
    rw [hrules, Table.find?_put_of_found hfound]
    split
    · rfl
    · rename_i hne
      exact hknown.resolve_right hne
  have hentry {db : ManagementDb} {entry : Entry}
      (hfind : ∀ ruleId, (w.db.rules.find? ruleId).isSome ∨ ruleId = entry.rule.id →
        (db.rules.find? ruleId).isSome) : Trail.Known ⟨db, w.history ++ [entry]⟩ := by
    intro e he
    rcases List.mem_append.mp he with he | he
    · exact hfind _ (.inl (h e he))
    · exact hfind _ (.inr (congrArg (·.rule.id) (List.mem_singleton.mp he)))
  cases heffect with
  | quiet same =>
    intro e he
    rw [same.rules]
    exact h e he
  | created ruleId content op may insert versions lists =>
    refine hentry fun id hid => ?_
    rw [Table.find?_insert? insert]
    split
    · rfl
    · rename_i hne
      exact hid.resolve_right (Ne.symm hne)
  | edited rule patch op may found tenant editable change puts =>
    have hold : w.db.rules.find? (rule.edit patch).id = some rule := found
    exact hentry (hput hold puts.rules)
  | approved rule reason now op may found tenant notAuthor puts =>
    let row : Rule := { rule with approvedBy := s.actor.id, approvedAt := some now }
    have hold : w.db.rules.find? row.id = some rule := found
    exact hentry (hput hold puts.rules)
  | shadowed rule op may found tenant puts =>
    let row : Rule := { rule with state := .shadow }
    have hold : w.db.rules.find? row.id = some rule := found
    exact fun e he => hput hold puts.rules _ (.inl (h e he))
  | activated rule emergencyReason now op may found tenant approval puts =>
    let row : Rule := { rule with state := .active, activatedAt := some now }
    have hold : w.db.rules.find? row.id = some rule := found
    exact fun e he => hput hold puts.rules _ (.inl (h e he))
  | archived rule reason op may found tenant puts =>
    let row : Rule := { rule with state := .archived }
    have hold : w.db.rules.find? row.id = some rule := found
    exact fun e he => hput hold puts.rules _ (.inl (h e he))
  | reverted toVersion source op may found rules lists versions =>
    intro e he
    rw [rules]
    exact h e he

theorem ManagementDb.publishedRules_congr {db db' : ManagementDb} (h : db'.rules = db.rules) :
    db'.publishedRules tenantId = db.publishedRules tenantId := by
  rw [publishedRules, publishedRules, h]

theorem ManagementDb.namedLists_congr {db db' : ManagementDb} (h : db'.lists = db.lists) :
    db'.namedLists tenantId = db.namedLists tenantId := by
  rw [namedLists, namedLists, h]

theorem ManagementDb.PutsAndPublishes.snapshot {db db' : ManagementDb}
    (h : db.PutsAndPublishes db' row publisher) (hnew : version ∈ db'.versions.rows)
    (hold : version ∉ db.versions.rows) :
    version.rulesSnapshot = (db'.publishedRules version.tenantId).map Rule.snapshot ∧
      version.listsSnapshot = db'.namedLists version.tenantId := by
  obtain ⟨hrules, hlists, hversions⟩ := h
  rw [(Table.insert?_eq_some_iff.mp hversions).2] at hnew
  rcases List.mem_append.mp hnew with hmem | hmem
  · exact absurd hmem hold
  · rw [List.mem_singleton.mp hmem]
    exact ⟨congrArg (List.map Rule.snapshot) (publishedRules_congr hrules.symm),
      namedLists_congr hlists.symm⟩

/-- A version that a step publishes, other than a copy of an older one, holds the rules and the
lists as they are after it. -/
theorem lifecycleStep_publishes {py : Python} {w w' : Trail} (h : lifecycleStep py w s = some w')
    (hrevert : ∀ n, s.op ≠ .revert n) (hnew : version ∈ w'.db.versions.rows)
    (hold : version ∉ w.db.versions.rows) :
    version.rulesSnapshot = (w'.db.publishedRules version.tenantId).map Rule.snapshot ∧
      version.listsSnapshot = w'.db.namedLists version.tenantId := by
  cases lifecycleStep_effect h with
  | quiet same => exact absurd (same.versions ▸ hnew) hold
  | created ruleId content op may insert versions lists => exact absurd (versions ▸ hnew) hold
  | edited rule patch op may found tenant editable change puts =>
    exact absurd (puts.versions ▸ hnew) hold
  | approved rule reason now op may found tenant notAuthor puts =>
    exact absurd (puts.versions ▸ hnew) hold
  | shadowed rule op may found tenant puts => exact absurd (puts.versions ▸ hnew) hold
  | activated rule emergencyReason now op may found tenant approval puts =>
    exact puts.snapshot hnew hold
  | archived rule reason op may found tenant puts => exact puts.snapshot hnew hold
  | reverted toVersion source op may found rules lists versions => exact absurd op (hrevert toVersion)

end ComplyLayer
