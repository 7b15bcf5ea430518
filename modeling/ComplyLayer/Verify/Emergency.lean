import ComplyLayer.Verify.FourEyes

/-!
# Which activations are emergencies

`activate` asks for the override where the rule has no approval, and names its record by whether a
reason was written. The two are one thing where no approved rule is activated with a reason.
-/

namespace ComplyLayer

open Theory

/-- The rule was approved, and nothing was written to it since. -/
def HasApproval (history : List Entry) (ruleId : String) : Prop :=
  ∃ before entry after, history = before ++ entry :: after ∧ entry.act = .approved ∧
    entry.rule.id = ruleId ∧ ∀ e ∈ after, ¬ e.Authors ruleId

/-- A rule that has an approver was approved as it is. -/
def ApprovalsStand : Trail → Prop :=
  Trail.Rows fun history row => row.approvedBy ≠ "" → HasApproval history row.id

/-- A successful `activate` records one event: an emergency exactly where the rule has no approval,
and then the actor holds the override and the reason is in the record. -/
def RecordsEmergency (py : Python) (w : Trail) (s : LifecycleStep) : Prop :=
  ∀ ruleId reason now db entries, s.op = .activate ruleId reason now →
    s.perform py w.db = .ok (db, entries) →
    ∃ record, db.audit = w.db.audit ++ [record] ∧ record.subjectId = ruleId ∧
      (HasApproval w.history ruleId → record.eventType = "rule.activated") ∧
      (¬ HasApproval w.history ruleId →
        record.eventType = "rule.emergency_activated" ∧ may s.actor.role .emergencyOverride ∧
          ∃ written, ("emergency_reason", written) ∈ record.payload ∧ written.truthy)

/-- Nobody who may activate an approved rule gives a reason for it. -/
def NoReasonWhereApproved (w : Trail) (s : LifecycleStep) : Prop :=
  ∀ rule reason now, s.op = .activate rule.id reason now →
    w.db.rules.find? rule.id = some rule → rule.tenantId = s.tenantId →
    may s.actor.role .activate → (rule.approvedBy ≠ "" ∨ may s.actor.role .emergencyOverride) →
    HasApproval w.history rule.id → ¬ reason.truthy

section
variable {py : Python} {db db' : ManagementDb} {rule rule' : Rule} {w w' : Trail}
  {s : LifecycleStep} {history : List Entry}

theorem HasApproval.append (h : HasApproval history ruleId) (he : ¬ e.Authors ruleId) :
    HasApproval (history ++ [e]) ruleId := by
  obtain ⟨before, entry, after, rfl, hact, hid, hafter⟩ := h
  refine ⟨before, entry, after ++ [e], by simp, hact, hid, fun e' he' => ?_⟩
  rcases List.mem_append.mp he' with h | h
  · exact hafter e' h
  · rwa [List.mem_singleton.mp h]

theorem HasApproval.of_last {entry : Entry} (hact : entry.act = .approved)
    (history : List Entry) : HasApproval (history ++ [entry]) entry.rule.id :=
  ⟨history, entry, [], rfl, hact, rfl, fun _ he => absurd he List.not_mem_nil⟩

/-- An edit resets the approval, so no step leaves one that does not stand. -/
theorem approvalsStand_step (h : ApprovalsStand w) (hstep : lifecycleStep py w s = some w') :
    ApprovalsStand w' := by
  refine h.step (lifecycleStep_effect hstep) (fun row e hne hstand happroved => ?_)
    (fun row state activatedAt hstand => hstand) (fun ruleId content hnew hne => absurd rfl hne)
    (fun rule patch found hstand hne => absurd rfl hne)
    fun rule reason now op may found notAuthor hstand _ => .of_last rfl w.history
  exact (hstand happroved).append fun hauthors => hne hauthors.1

/-! ## What `activate` records -/

theorem ManagementDb.audit_saveFields (db : ManagementDb) (ruleId : String) (f : Rule → Rule) :
    (db.saveFields ruleId f).audit = db.audit := by
  unfold saveFields
  split <;> rfl

theorem publishVersion_audit (h : publishVersion db tenantId actor = .ok (db', version)) :
    db'.audit = db.audit := by
  obtain ⟨db₁, hcreate, h⟩ := bind_eq_ok.mp h
  cases pure_eq_ok.mp h
  unfold ManagementDb.createVersion at hcreate
  split at hcreate
  · cases hcreate
    rfl
  · cases hcreate

/-- The event is named by the reason alone. -/
theorem activate_audit (h : activate db rule actor reason now = .ok (db', rule')) :
    ∃ record, db'.audit = db.audit ++ [record] ∧ record.subjectId = rule.id ∧
      record.eventType =
        (if reason.truthy then "rule.emergency_activated" else "rule.activated") ∧
      ("emergency_reason", reason) ∈ record.payload := by
  rw [activate, seq_eq_ok, seq_eq_ok] at h
  obtain ⟨-, -, h⟩ := h
  obtain ⟨⟨db₁, version⟩, hpublish, h⟩ := bind_eq_ok.mp h
  cases pure_eq_ok.mp h
  have haudit : db₁.audit = db.audit :=
    (publishVersion_audit hpublish).trans (db.audit_saveFields _ _)
  refine ⟨_, congrArg (· ++ [_]) haudit, rfl, rfl, ?_⟩
  simp

/-- `activate` succeeds for whoever may, with an approval or the override. -/
theorem activate_of_may (db : ManagementDb) (reason : Value) (now : Int)
    (hmay : may actor.role .activate)
    (happroval : rule.approvedBy ≠ "" ∨ reason.truthy ∧ may actor.role .emergencyOverride) :
    ∃ result, activate db rule actor reason now = .ok result := by
  obtain ⟨⟨db₁, version⟩, hpublish⟩ := publishVersion_ok
    (db.saveFields rule.id fun row => { row with state := .active, activatedAt := some now })
    rule.tenantId actor
  refine ⟨_, seq_eq_ok.mpr ⟨permit_eq_ok_iff.mpr hmay, seq_eq_ok.mpr
    ⟨requireApproved_eq_ok_iff.mpr happroval, bind_eq_ok.mpr ⟨_, hpublish, rfl⟩⟩⟩⟩

theorem perform_activate_eq_ok (hop : s.op = .activate ruleId reason now)
    (h : s.perform py db = .ok (db', entries)) :
    ∃ rule rule', db.rules.find? ruleId = some rule ∧ rule.id = ruleId ∧
      rule.tenantId = s.tenantId ∧ activate db rule s.actor reason now = .ok (db', rule') := by
  obtain ⟨tenantId, actor, op⟩ := s
  cases hop
  obtain ⟨rule, hload, h⟩ := bind_eq_ok.mp h
  obtain ⟨⟨db₁, rule'⟩, hactivate, h⟩ := bind_eq_ok.mp h
  cases pure_eq_ok.mp h
  obtain ⟨hfound, hid, htenant⟩ := load_found hload
  exact ⟨rule, rule', hid ▸ hfound, hid, htenant, hactivate⟩

theorem perform_activate_of_may (py : Python) (hop : s.op = .activate rule.id reason now)
    (hfound : db.rules.find? rule.id = some rule) (htenant : rule.tenantId = s.tenantId)
    (hmay : may s.actor.role .activate)
    (happroval : rule.approvedBy ≠ "" ∨ reason.truthy ∧ may s.actor.role .emergencyOverride) :
    ∃ result, s.perform py db = .ok result := by
  obtain ⟨tenantId, actor, op⟩ := s
  cases hop
  obtain ⟨result, hactivate⟩ := activate_of_may db reason now hmay happroval
  exact ⟨_, bind_eq_ok.mpr ⟨rule, ManagementDb.load_eq_ok_iff.mpr ⟨hfound, htenant⟩,
    bind_eq_ok.mpr ⟨result, hactivate, rfl⟩⟩⟩

/-- One step. -/
theorem recordsEmergency_iff (hstand : ApprovalsStand w) :
    RecordsEmergency py w s ↔ NoReasonWhereApproved w s := by
  constructor
  · intro hlaw rule reason now hop hfound htenant hmay hoverride happroval hreason
    have hpermitted : rule.approvedBy ≠ "" ∨ reason.truthy ∧ may s.actor.role .emergencyOverride :=
      hoverride.imp_right fun hmay => ⟨hreason, hmay⟩
    obtain ⟨⟨db, entries⟩, hperform⟩ :=
      perform_activate_of_may py hop hfound htenant hmay hpermitted
    obtain ⟨record, haudit, -, hactivated, -⟩ := hlaw rule.id reason now db entries hop hperform
    obtain ⟨found, rule', hfound', -, -, hactivate⟩ := perform_activate_eq_ok hop hperform
    obtain ⟨record', haudit', -, hevent, -⟩ := activate_audit hactivate
    obtain ⟨-, hsame⟩ := List.append_singleton_inj.mp (haudit.symm.trans haudit')
    rw [← hsame, hactivated happroval, if_pos hreason] at hevent
    exact absurd hevent (by decide)
  · intro hguard ruleId reason now db entries hop hperform
    obtain ⟨rule, rule', hfound, rfl, htenant, hactivate⟩ := perform_activate_eq_ok hop hperform
    obtain ⟨hmay, happroval, -⟩ := activate_eq_ok hfound hactivate
    obtain ⟨record, haudit, hsubject, hevent, hpayload⟩ := activate_audit hactivate
    refine ⟨record, haudit, hsubject, fun hstands => ?_, fun hnone => ?_⟩
    · have hreason := hguard rule reason now hop hfound htenant hmay
        (happroval.imp_right And.right) hstands
      rw [hevent, if_neg hreason]
    · have hunapproved : ¬ rule.approvedBy ≠ "" := fun h => hnone (hstand rule hfound h)
      obtain ⟨hreason, hoverride⟩ := happroval.resolve_left hunapproved
      rw [hevent, if_pos hreason]
      exact ⟨rfl, hoverride, reason, hpayload, hreason⟩

/-- **Emergencies.** Over a run from a database without rules, every activation is recorded as what
it was just where no activation of an approved rule carries a reason. -/
theorem emergencies_recorded_iff {steps : List LifecycleStep} (hrules : w.db.rules = ∅) :
    Along (lifecycleStep py) (RecordsEmergency py) w steps ↔
      Along (lifecycleStep py) NoReasonWhereApproved w steps := by
  have hstart : ApprovalsStand w := by
    intro row hrow
    rw [hrules] at hrow
    cases hrow
  exact along_congr (fun _ _ hstand => recordsEmergency_iff hstand)
    (fun _ _ _ hstand _ hstep => approvalsStand_step hstand hstep) hstart

end

/-! An approved draft, activated without a reason and with one, by an officer without the override. -/

def approvedDraft : List LifecycleStep :=
  [⟨"tnt_1", analyst, .createDraft "rul_1" draftContent⟩,
    ⟨"tnt_1", officer, .approve "rul_1" (.str "") 0⟩]

def activateWith (reason : String) : LifecycleStep :=
  ⟨"tnt_1", secondOfficer, .activate "rul_1" (.str reason) 1⟩

theorem emergencies_recorded_plain :
    Along (lifecycleStep draftPython) (RecordsEmergency draftPython) {}
      (approvedDraft ++ [activateWith ""]) := by
  refine (emergencies_recorded_iff rfl).mpr (along_of_forall fun step hstep w => ?_)
  intro rule reason now hop
  rcases List.mem_append.mp hstep with hdraft | hactivate
  · rcases List.mem_cons.mp hdraft with rfl | hdraft
    · cases hop
    · rw [List.mem_singleton.mp hdraft] at hop
      cases hop
  · rw [List.mem_singleton.mp hactivate] at hop
    obtain ⟨-, rfl, -⟩ := LifecycleOp.activate.inj hop
    intros
    decide

theorem approved_recorded_as_emergency :
    ¬ Along (lifecycleStep draftPython) (RecordsEmergency draftPython) {}
      (approvedDraft ++ [activateWith "quarter end"]) := by
  intro h
  have hlaw := along_iff_forall.mp h approvedDraft (activateWith "quarter end") [] _ rfl rfl
  obtain ⟨record, haudit, -, hactivated, -⟩ := hlaw "rul_1" (.str "quarter end") 1 _ _ rfl rfl
  have hevent : some record.eventType = some "rule.emergency_activated" := by
    have hlast := congrArg (fun trail => trail.getLast?.map AuditEvent.eventType) haudit
    rw [List.getLast?_concat] at hlast
    exact hlast.symm
  rw [hactivated ⟨[_], _, [], rfl, rfl, rfl, by simp⟩] at hevent
  exact absurd hevent (by decide)

end ComplyLayer
