import ComplyLayer.Rules.Records
import ComplyLayer.Rules.Statements
import ComplyLayer.Verify.Authority

/-!
# A change and its record

What a request stores when statements of it fail: the change and its record, or nothing. Five of
the operations write the change in no block of its own, and `append` writes the record in a
savepoint. Where the record cannot be written the savepoint is taken back and nothing else is. The
exception becomes a response, and the change is committed.
-/

namespace ComplyLayer

open Theory

/-- With its checks passed the operation issues `statements`, which change a rule or a version in
no block of their own, and then writes `event`. -/
inductive WritesAhead (py : Python) (db : ManagementDb) (s : LifecycleStep) :
    List Statement → AuditEvent → Prop
  | created (rule : Rule) (op : s.op = .createDraft rule.id rule.content)
      (new : rule =
        { id := rule.id, tenantId := s.tenantId, content := rule.content, createdBy := s.actor.id })
      (may : may s.actor.role .createDraft)
      (valid : validateExpression py rule.content.expression = .ok ())
      (free : db.nameVersionTaken rule = false) (fresh : db.rules.find? rule.id = none) :
      WritesAhead py db s [.insertRule] (.created s.actor rule)
  | edited (rule : Rule) (patch : RulePatch) (op : s.op = .editDraft rule.id patch)
      (may : may s.actor.role .editDraft) (found : db.rules.find? rule.id = some rule)
      (tenant : rule.tenantId = s.tenantId) (editable : rule.state.Editable)
      (valid : validatePatch py patch = .ok ())
      (change : patch.apply rule.content ≠ rule.content)
      (free : db.nameVersionTaken (rule.edit patch) = false) :
      WritesAhead py db s [.selectRule, .updateRule] (.edited s.actor rule patch)
  | approved (rule : Rule) (reason : Value) (now : Int) (op : s.op = .approve rule.id reason now)
      (may : may s.actor.role .approve) (found : db.rules.find? rule.id = some rule)
      (tenant : rule.tenantId = s.tenantId) (notAuthor : s.actor.id ≠ rule.createdBy)
      (change : { rule with approvedBy := s.actor.id, approvedAt := some now } ≠ rule) :
      WritesAhead py db s [.selectRule, .updateRule] (.approved s.actor rule reason)
  | shadowed (rule : Rule) (op : s.op = .moveToShadow rule.id) (may : may s.actor.role .shadow)
      (found : db.rules.find? rule.id = some rule) (tenant : rule.tenantId = s.tenantId)
      (change : { rule with state := .shadow } ≠ rule) :
      WritesAhead py db s [.selectRule, .updateRule] (.shadowed s.actor rule)
  | reverted (toVersion : Nat) (op : s.op = .revert toVersion) (may : may s.actor.role .revert)
      (found : db.versions.find? (s.tenantId, toVersion) = some source) :
      WritesAhead py db s [.selectSource, .selectLatest, .insertVersion]
        (.reverted s.tenantId s.actor toVersion (db.latestVersion s.tenantId + 1))

namespace LifecycleStep

/-- Nothing fails up to the record of a change that is already written, and then something does
within the savepoint of `append`, which is taken back. -/
def LosesRecord (py : Python) (fault : Statement → Bool) (db : ManagementDb) (s : LifecycleStep) :
    Prop :=
  ∃ statements event, WritesAhead py db s statements event ∧ (∀ l ∈ statements, fault l = false) ∧
    fault .auditSavepoint = false ∧ fault .auditRollback = false ∧ ¬event.Completes fault

/-- Once the request is over, an operation that raised has stored nothing, and one that returned
has stored its change, if it made one, and a record of it. -/
def AllOrNothing (py : Python) (fault : Statement → Bool) (db : ManagementDb)
    (s : LifecycleStep) : Prop :=
  match (s.transact py).request fault db with
  | (.error _, db') => db' = db
  | (.ok entries, db') => s.perform py db = .ok (db', entries) ∧
    (db' = db ∨ ∃ event : AuditEvent, event.tenantId = s.tenantId ∧ event.actor = s.actor ∧
      db'.audit = db.audit ++ [event])

end LifecycleStep

namespace Management

variable {py : Python} {fault : Statement → Bool} {db : ManagementDb}

/-- A write and then the record of it. -/
theorem torn_update_append_iff {f : ManagementDb → Option ManagementDb} (c : α) :
    (Program.update label f >>= fun _ => append event >>= fun _ => pure c : Management α).Torn
        fault db ↔
      fault label = false ∧ fault .auditSavepoint = false ∧ fault .auditRollback = false ∧
        (∃ db₁, f db = some db₁ ∧ db₁ ≠ db) ∧ ¬event.Completes fault := by
  have hinner (db₁ : ManagementDb) : (fault .auditRelease = false ∧
      ∃ (_ : Unit) (db' : ManagementDb), fault .lockTenant = false ∧ fault .selectTail = false ∧
        fault .insertRecord = false ∧ event.storable ∧ db' = db₁.record event) ↔
      event.Completes fault := by
    constructor
    · rintro ⟨hrelease, -, -, hlock, htail, hinsert, hstorable, -⟩
      exact ⟨hlock, htail, hinsert, hstorable, hrelease⟩
    · intro h
      exact ⟨h.release, (), _, h.lockTenant, h.selectTail, h.insertRecord, h.storable, rfl⟩
  unfold append
  rw [Program.torn_update_iff (append_body_means event)]
  simp only [hinner]
  simp only [← and_assoc, exists_and_right]

theorem guarded_load (tenantId ruleId : String) : Program.Guarded fault (load tenantId ruleId) :=
  (Program.guarded_statement _ _).bind (Program.means_select _ _) (fun _ _ _ h => h.2.2)
    fun _ => Program.guarded_lift _

/-- An operation on the rule of a request. -/
theorem loading_torn_iff {p : Rule → Management α} (g : Rule → α → β) :
    Program.Torn fault (do
      let rule ← load tenantId ruleId
      let a ← p rule
      pure (g rule a)) db ↔
    fault .selectRule = false ∧ ∃ rule, db.load tenantId ruleId = .ok rule ∧
      (p rule).Torn fault db := by
  rw [(guarded_load _ _).torn_bind_iff (load_means _ _) fun _ _ _ h => h.2.2]
  simp only [Program.torn_map_iff, and_true, and_assoc, exists_and_left]

/-! ## The writes that change something -/

theorem createRule_changes_iff : (∃ db₁, (db.createRule rule).toOption = some db₁ ∧ db₁ ≠ db) ↔
    db.nameVersionTaken rule = false ∧ db.rules.find? rule.id = none := by
  simp only [toOption_eq_some]
  constructor
  · rintro ⟨db₁, hcreate, -⟩
    have hinsert := (ManagementDb.createRule_eq_ok hcreate).1
    refine ⟨?_, Table.find?_eq_none_iff.mpr (Table.insert?_eq_some_iff.mp hinsert).1⟩
    unfold ManagementDb.createRule at hcreate
    split at hcreate
    · cases hcreate
    · simp_all
  · rintro ⟨hfree, hfresh⟩
    cases hinsert : db.rules.insert? rule with
    | none =>
      have htaken := Table.insert?_eq_none_iff.mp hinsert
      rw [hfresh] at htaken
      cases htaken
    | some rules =>
      have hcreate : db.createRule rule = .ok { db with rules := rules } := by
        rw [ManagementDb.createRule, hfree, hinsert]
        rfl
      refine ⟨_, hcreate, fun heq => ?_⟩
      have hfind := Table.find?_insert? hinsert rule.id
      rw [show rules = db.rules from congrArg ManagementDb.rules heq, hfresh] at hfind
      simp at hfind

/-- A row put in the table changes it when it is not the row that is there. -/
theorem put_ne_iff {old row : Rule} (hfound : db.rules.find? row.id = some old) :
    { db with rules := db.rules.put row } ≠ db ↔ row ≠ old := by
  constructor
  · rintro hne rfl
    rw [Table.put_eq_self hfound] at hne
    exact hne rfl
  · intro hne heq
    have hrules : db.rules.put row = db.rules := congrArg ManagementDb.rules heq
    have hfind := Table.find?_put_of_found hfound row.id
    rw [hrules, hfound, if_pos rfl] at hfind
    exact hne (Option.some.inj hfind).symm

theorem saveRule_changes_iff {old row : Rule} (hfound : db.rules.find? row.id = some old) :
    (∃ db₁, (db.saveRule row).toOption = some db₁ ∧ db₁ ≠ db) ↔
      db.nameVersionTaken row = false ∧ row ≠ old := by
  rw [← put_ne_iff hfound, ManagementDb.saveRule]
  cases db.nameVersionTaken row with
  | true => simp [Except.toOption]
  | false => simp [Except.toOption]

theorem saveFields_changes_iff {f : Rule → Rule} (hfound : db.rules.find? rule.id = some rule)
    (hid : (f rule).id = rule.id) :
    (∃ db₁, some (db.saveFields rule.id f) = some db₁ ∧ db₁ ≠ db) ↔ f rule ≠ rule := by
  have hsave : db.saveFields rule.id f = { db with rules := db.rules.put (f rule) } := by
    rw [ManagementDb.saveFields, hfound]
  rw [← put_ne_iff (hid ▸ hfound), hsave]
  simp

/-- A version with a new number is always created. -/
theorem createVersion_changes (db : ManagementDb) (version : RuleSetVersion)
    (hnumber : version.version = db.latestVersion version.tenantId + 1) :
    ∃ db₁, (db.createVersion version).toOption = some db₁ ∧ db₁ ≠ db := by
  obtain ⟨versions, hinsert, hcreate⟩ := createVersion_ok db version hnumber
  refine ⟨_, toOption_eq_some.mpr hcreate, fun heq => ?_⟩
  have hrows := (Table.insert?_eq_some_iff.mp hinsert).2
  rw [show versions = db.versions from congrArg ManagementDb.versions heq] at hrows
  simp at hrows

/-! ## The operations -/

theorem createDraft_torn_iff {rule : Rule}
    (hnew : rule =
      { id := rule.id, tenantId := tenantId, content := rule.content, createdBy := actor.id }) :
    (createDraft py tenantId actor rule.id rule.content).Torn fault db ↔
      may actor.role .createDraft ∧ validateExpression py rule.content.expression = .ok () ∧
        fault .insertRule = false ∧ fault .auditSavepoint = false ∧ fault .auditRollback = false ∧
        (db.nameVersionTaken rule = false ∧ db.rules.find? rule.id = none) ∧
        ¬(AuditEvent.created actor rule).Completes fault := by
  unfold createDraft
  rw [← hnew]
  rw [Program.torn_check_iff, Program.torn_check_iff, torn_update_append_iff,
    createRule_changes_iff, permit_eq_ok_iff]

theorem editDraft_torn_iff (hfound : db.rules.find? rule.id = some rule) :
    (editDraft py rule actor patch).Torn fault db ↔
      may actor.role .editDraft ∧ rule.state.Editable ∧ validatePatch py patch = .ok () ∧
        patch.apply rule.content ≠ rule.content ∧
        fault .updateRule = false ∧ fault .auditSavepoint = false ∧ fault .auditRollback = false ∧
        db.nameVersionTaken (rule.edit patch) = false ∧
        ¬(AuditEvent.edited actor rule patch).Completes fault := by
  unfold editDraft
  rw [Program.torn_check_iff, Program.torn_check_iff, Program.torn_check_iff, permit_eq_ok_iff,
    requireEditable_eq_ok_iff]
  refine and_congr_right fun _ => and_congr_right fun _ => and_congr_right fun _ => ?_
  by_cases hchange : patch.apply rule.content = rule.content
  · rw [if_pos (changesOf_isEmpty_iff.mpr hchange)]
    simp only [hchange, ne_eq, not_true_eq_false, false_and, iff_false]
    rintro ⟨e, db', hrun, -⟩
    cases hrun
  · have hrow : rule.edit patch ≠ rule := fun heq => hchange (congrArg Rule.content heq)
    rw [if_neg fun hempty => hchange (changesOf_isEmpty_iff.mp hempty), torn_update_append_iff,
      saveRule_changes_iff (show db.rules.find? (rule.edit patch).id = some rule from hfound)]
    simp only [ne_eq, hchange, hrow, not_false_eq_true, true_and, and_true]

theorem requestApproval_not_torn : ¬(requestApproval rule actor).Torn fault db := by
  unfold requestApproval
  rw [Program.torn_check_iff, Program.torn_check_iff, Program.torn_map_iff]
  rintro ⟨-, -, htorn⟩
  exact (Program.guarded_atomic _ _ _ _).not_torn htorn

theorem approve_torn_iff (hfound : db.rules.find? rule.id = some rule) :
    (approve rule actor reason now).Torn fault db ↔
      may actor.role .approve ∧ actor.id ≠ rule.createdBy ∧
        fault .updateRule = false ∧ fault .auditSavepoint = false ∧ fault .auditRollback = false ∧
        { rule with approvedBy := actor.id, approvedAt := some now } ≠ rule ∧
        ¬(AuditEvent.approved actor rule reason).Completes fault := by
  unfold approve saveFields
  rw [Program.torn_check_iff, Program.torn_check_iff, permit_eq_ok_iff, permitNotAuthor_eq_ok_iff]
  dsimp only
  rw [torn_update_append_iff, saveFields_changes_iff hfound]
  rfl

theorem moveToShadow_torn_iff (hfound : db.rules.find? rule.id = some rule) :
    (moveToShadow rule actor).Torn fault db ↔
      may actor.role .shadow ∧
        fault .updateRule = false ∧ fault .auditSavepoint = false ∧ fault .auditRollback = false ∧
        { rule with state := .shadow } ≠ rule ∧
        ¬(AuditEvent.shadowed actor rule).Completes fault := by
  unfold moveToShadow saveFields
  rw [Program.torn_check_iff, permit_eq_ok_iff]
  dsimp only
  rw [torn_update_append_iff, saveFields_changes_iff hfound]
  rfl

/-- The checks come before the block, and nothing but the block writes. -/
theorem activate_not_torn : ¬(activate rule actor emergencyReason now).Torn fault db := by
  unfold activate
  rw [Program.torn_check_iff, Program.torn_check_iff, Program.torn_map_iff]
  rintro ⟨-, -, htorn⟩
  exact (Program.guarded_atomic _ _ _ _).not_torn htorn

theorem archive_not_torn : ¬(archive rule actor reason).Torn fault db := by
  unfold archive
  rw [Program.torn_check_iff, Program.torn_map_iff]
  rintro ⟨-, htorn⟩
  exact (Program.guarded_atomic _ _ _ _).not_torn htorn

theorem revert_torn_iff : (revert tenantId actor toVersion).Torn fault db ↔
    may actor.role .revert ∧ fault .selectSource = false ∧
      ∃ source, db.versions.find? (tenantId, toVersion) = some source ∧
        fault .selectLatest = false ∧ fault .insertVersion = false ∧
        fault .auditSavepoint = false ∧ fault .auditRollback = false ∧
        ¬(AuditEvent.reverted tenantId actor toVersion
          (db.latestVersion tenantId + 1)).Completes fault := by
  unfold revert
  rw [Program.torn_check_iff, Program.torn_select_iff, Program.torn_lift_iff, permit_eq_ok_iff]
  simp only [sourceVersion_eq_ok_iff]
  refine and_congr_right fun _ => and_congr_right fun _ => exists_congr fun source =>
    and_congr_right fun hsource => ?_
  have htenant : source.tenantId = tenantId :=
    congrArg Prod.fst (Table.find?_eq_some_iff.mp hsource).2
  have hcreate := createVersion_changes db { source with
      version := db.latestVersion tenantId + 1
      publishedBy := actor.id } (by rw [htenant])
  rw [Program.torn_select_iff, torn_update_append_iff]
  simp only [hcreate, true_and]

end Management

open Management in
/-- An operation that raises leaves something stored exactly where it loses the record of it. -/
theorem LifecycleStep.torn_iff {py : Python} {fault : Statement → Bool} {db : ManagementDb}
    {s : LifecycleStep} : (s.transact py).Torn fault db ↔ s.LosesRecord py fault db := by
  obtain ⟨tenantId, actor, op⟩ := s
  constructor
  · intro h
    cases op with
    | createDraft ruleId content =>
      let rule : Rule :=
        { id := ruleId, tenantId := tenantId, content := content, createdBy := actor.id }
      have hnew : rule =
        { id := ruleId, tenantId := tenantId, content := content, createdBy := actor.id } := rfl
      have htorn := (createDraft_torn_iff hnew).mp ((Program.torn_map_iff _).mp h)
      obtain ⟨hmay, hvalid, hinsert, hsavepoint, hrollback, ⟨hfree, hfresh⟩, hfails⟩ := htorn
      exact ⟨_, _, .created rule rfl rfl hmay hvalid hfree hfresh,
        List.forall_mem_singleton.mpr hinsert, hsavepoint, hrollback, hfails⟩
    | editDraft ruleId patch =>
      obtain ⟨hselect, rule, hload, htorn⟩ := (loading_torn_iff _).mp h
      obtain ⟨hfound, rfl, htenant⟩ := load_found hload
      obtain ⟨hmay, heditable, hvalid, hchange, hupdate, hsavepoint, hrollback, hfree, hfails⟩ :=
        (editDraft_torn_iff hfound).mp htorn
      exact ⟨_, _, .edited rule patch rfl hmay hfound htenant heditable hvalid hchange hfree,
        by simp [hselect, hupdate], hsavepoint, hrollback, hfails⟩
    | requestApproval ruleId =>
      obtain ⟨-, rule, -, htorn⟩ := (loading_torn_iff _).mp h
      exact absurd htorn requestApproval_not_torn
    | approve ruleId reason now =>
      obtain ⟨hselect, rule, hload, htorn⟩ := (loading_torn_iff _).mp h
      obtain ⟨hfound, rfl, htenant⟩ := load_found hload
      obtain ⟨hmay, hauthor, hupdate, hsavepoint, hrollback, hchange, hfails⟩ :=
        (approve_torn_iff hfound).mp htorn
      exact ⟨_, _, .approved rule reason now rfl hmay hfound htenant hauthor hchange,
        by simp [hselect, hupdate], hsavepoint, hrollback, hfails⟩
    | moveToShadow ruleId =>
      obtain ⟨hselect, rule, hload, htorn⟩ := (loading_torn_iff _).mp h
      obtain ⟨hfound, rfl, htenant⟩ := load_found hload
      obtain ⟨hmay, hupdate, hsavepoint, hrollback, hchange, hfails⟩ :=
        (moveToShadow_torn_iff hfound).mp htorn
      exact ⟨_, _, .shadowed rule rfl hmay hfound htenant hchange, by simp [hselect, hupdate],
        hsavepoint, hrollback, hfails⟩
    | activate ruleId emergencyReason now =>
      obtain ⟨-, rule, -, htorn⟩ := (loading_torn_iff _).mp h
      exact absurd htorn activate_not_torn
    | archive ruleId reason =>
      obtain ⟨-, rule, -, htorn⟩ := (loading_torn_iff _).mp h
      exact absurd htorn archive_not_torn
    | revert toVersion =>
      obtain ⟨hmay, hselect, source, hsource, hlatest, hinsert, hsavepoint, hrollback, hfails⟩ :=
        revert_torn_iff.mp ((Program.torn_map_iff _).mp h)
      exact ⟨_, _, .reverted toVersion rfl hmay hsource, by simp [hselect, hlatest, hinsert],
        hsavepoint, hrollback, hfails⟩
  · rintro ⟨statements, event, hwrites, hfaults, hsavepoint, hrollback, hfails⟩
    have hload {rule : Rule} (hfound : db.rules.find? rule.id = some rule)
        (htenant : rule.tenantId = tenantId) : db.load tenantId rule.id = .ok rule :=
      ManagementDb.load_eq_ok_iff.mpr ⟨hfound, htenant⟩
    cases hwrites with
    | created rule hop hnew hmay hvalid hfree hfresh =>
      cases hop
      have hinsert := List.forall_mem_singleton.mp hfaults
      exact (Program.torn_map_iff _).mpr ((createDraft_torn_iff hnew).mpr
        ⟨hmay, hvalid, hinsert, hsavepoint, hrollback, ⟨hfree, hfresh⟩, hfails⟩)
    | edited rule patch hop hmay hfound htenant heditable hvalid hchange hfree =>
      cases hop
      simp only [List.forall_mem_cons] at hfaults
      obtain ⟨hselect, hupdate, -⟩ := hfaults
      have htorn := (editDraft_torn_iff hfound).mpr ⟨hmay, heditable, hvalid, hchange,
        hupdate, hsavepoint, hrollback, hfree, hfails⟩
      exact (loading_torn_iff _).mpr ⟨hselect, rule, hload hfound htenant, htorn⟩
    | approved rule reason now hop hmay hfound htenant hauthor hchange =>
      cases hop
      simp only [List.forall_mem_cons] at hfaults
      obtain ⟨hselect, hupdate, -⟩ := hfaults
      have htorn := (approve_torn_iff hfound).mpr ⟨hmay, hauthor, hupdate, hsavepoint, hrollback,
        hchange, hfails⟩
      exact (loading_torn_iff _).mpr ⟨hselect, rule, hload hfound htenant, htorn⟩
    | shadowed rule hop hmay hfound htenant hchange =>
      cases hop
      simp only [List.forall_mem_cons] at hfaults
      obtain ⟨hselect, hupdate, -⟩ := hfaults
      have htorn := (moveToShadow_torn_iff hfound).mpr ⟨hmay, hupdate, hsavepoint, hrollback,
        hchange, hfails⟩
      exact (loading_torn_iff _).mpr ⟨hselect, rule, hload hfound htenant, htorn⟩
    | reverted toVersion hop hmay hsource =>
      cases hop
      simp only [List.forall_mem_cons] at hfaults
      obtain ⟨hselect, hlatest, hinsert, -⟩ := hfaults
      exact (Program.torn_map_iff _).mpr (revert_torn_iff.mpr
        ⟨hmay, hselect, _, hsource, hlatest, hinsert, hsavepoint, hrollback, hfails⟩)

/-- **A change and its record stand or fall together**, but where the record of a change that is
written already is lost. -/
theorem stands_or_falls_iff {py : Python} {fault : Statement → Bool} {db : ManagementDb}
    {s : LifecycleStep} : s.AllOrNothing py fault db ↔ ¬ s.LosesRecord py fault db := by
  rw [← LifecycleStep.torn_iff, LifecycleStep.AllOrNothing, Program.Torn]
  rcases hrequest : (s.transact py).request fault db with ⟨e | entries, db'⟩
  · simp
  · have hperform := LifecycleStep.transact_ok hrequest
    have hrecord := (perform_recorded hperform).imp_right ManagementDb.Recorded.audit
    simp [hperform, hrecord]

/-- A draft of an analyst, and nothing else. -/
def unrecordedDb : ManagementDb where
  rules := ⟨[
    { id := "rul_1"
      tenantId := "tnt_1"
      content :=
        { name := "Limit"
          category := "kyc"
          expression := "amount_minor > 50"
          severity := "block" }
      createdBy := "usr_analyst" }], List.pairwise_singleton _ _⟩

/-- An approval whose reason is the NUL character. -/
def approveWithNul : LifecycleStep where
  tenantId := "tnt_1"
  actor := ruleOfficer
  op := .approve "rul_1" (.str (String.singleton (Char.ofNat 0))) 100

/-- No statement fails of itself, the approval is stored, and the record of it is not. -/
theorem approval_without_record : ∃ db',
    (approveWithNul.transact rulePython).request (fun _ => false) unrecordedDb =
      (.error (.statement .insertRecord), db') ∧
    db'.rules.rows.map (·.approvedBy) = ["usr_officer"] ∧ db'.audit = [] ∧
    ¬ approveWithNul.AllOrNothing rulePython (fun _ => false) unrecordedDb := by
  refine ⟨_, rfl, rfl, rfl, fun h => ?_⟩
  have hrows := congrArg (fun db => db.rules.rows.map (·.approvedBy)) h
  exact absurd hrows (by decide)

end ComplyLayer
