import ComplyLayer.Rules.Transitions

/-!
# The record of an operation

An operation that changes a rule or publishes a version appends one record to the trail, under the
tenant and the actor of the request, and touches no key.
-/

namespace ComplyLayer

open Theory

/-- The keys and the trail are the same. -/
structure ManagementDb.Unrecorded (db db' : ManagementDb) : Prop where
  keys : db'.keys = db.keys
  audit : db'.audit = db.audit

/-- The keys are the same, and the trail has one record more. -/
structure ManagementDb.Recorded (db db' : ManagementDb) (tenantId : String) (actor : Actor) :
    Prop where
  keys : db'.keys = db.keys
  audit : ∃ event : AuditEvent, event.tenantId = tenantId ∧ event.actor = actor ∧
    db'.audit = db.audit ++ [event]

section
variable {py : Python} {db db' : ManagementDb} {rule rule' : Rule} {actor : Actor}

/-! ## The writes -/

theorem ManagementDb.Unrecorded.trans {db'' : ManagementDb} (h : db.Unrecorded db')
    (h' : db'.Unrecorded db'') : db.Unrecorded db'' :=
  ⟨h'.keys.trans h.keys, h'.audit.trans h.audit⟩

theorem ManagementDb.Unrecorded.append {subject : String × String} (h : db.Unrecorded db') :
    db.Recorded (db'.append tenantId eventType actor subject payload) tenantId actor :=
  ⟨h.keys, _, rfl, rfl, congrArg (· ++ _) h.audit⟩

theorem saveFields_unrecorded (db : ManagementDb) (ruleId : String) (f : Rule → Rule) :
    db.Unrecorded (db.saveFields ruleId f) := by
  unfold ManagementDb.saveFields
  split <;> exact ⟨rfl, rfl⟩

theorem createRule_unrecorded (h : db.createRule rule = .ok db') : db.Unrecorded db' := by
  unfold ManagementDb.createRule at h
  split at h
  · cases h
  · split at h
    · cases h
      exact ⟨rfl, rfl⟩
    · cases h

theorem saveRule_unrecorded (h : db.saveRule rule = .ok db') : db.Unrecorded db' := by
  unfold ManagementDb.saveRule at h
  split at h
  · cases h
  · cases h
    exact ⟨rfl, rfl⟩

theorem createVersion_unrecorded (h : db.createVersion version = .ok db') :
    db.Unrecorded db' := by
  unfold ManagementDb.createVersion at h
  split at h
  · cases h
    exact ⟨rfl, rfl⟩
  · cases h

theorem publishVersion_unrecorded (h : publishVersion db tenantId actor = .ok (db', version)) :
    db.Unrecorded db' := by
  obtain ⟨db₁, hcreate, h⟩ := bind_eq_ok.mp h
  cases pure_eq_ok.mp h
  exact createVersion_unrecorded hcreate

/-! ## The operations -/

theorem createDraft_recorded
    (h : createDraft py db tenantId actor ruleId content = .ok (db', rule)) :
    db.Recorded db' tenantId actor := by
  rw [createDraft, seq_eq_ok, seq_eq_ok] at h
  obtain ⟨db₁, hcreate, h⟩ := bind_eq_ok.mp h.2.2
  cases pure_eq_ok.mp h
  exact (createRule_unrecorded hcreate).append

theorem editDraft_recorded (h : editDraft py db rule actor patch = .ok (db', rule')) :
    db' = db ∨ db.Recorded db' rule.tenantId actor := by
  rw [editDraft, seq_eq_ok, seq_eq_ok, seq_eq_ok] at h
  have h := h.2.2.2
  dsimp only at h
  split at h
  · cases pure_eq_ok.mp h
    exact .inl rfl
  · obtain ⟨db₁, hsave, h⟩ := bind_eq_ok.mp h
    cases pure_eq_ok.mp h
    exact .inr (saveRule_unrecorded hsave).append

theorem requestApproval_recorded (h : requestApproval db rule actor = .ok (db', rule')) :
    db.Recorded db' rule.tenantId actor := by
  rw [requestApproval, seq_eq_ok, seq_eq_ok] at h
  cases pure_eq_ok.mp h.2.2
  exact ManagementDb.Unrecorded.append ⟨rfl, rfl⟩

theorem approve_recorded (h : approve db rule actor reason now = .ok (db', rule')) :
    db.Recorded db' rule.tenantId actor := by
  rw [approve, seq_eq_ok, seq_eq_ok] at h
  cases pure_eq_ok.mp h.2.2
  exact (saveFields_unrecorded ..).append

theorem moveToShadow_recorded (h : moveToShadow db rule actor = .ok (db', rule')) :
    db.Recorded db' rule.tenantId actor := by
  rw [moveToShadow, seq_eq_ok] at h
  cases pure_eq_ok.mp h.2
  exact (saveFields_unrecorded ..).append

theorem activate_recorded (h : activate db rule actor emergencyReason now = .ok (db', rule')) :
    db.Recorded db' rule.tenantId actor := by
  rw [activate, seq_eq_ok, seq_eq_ok] at h
  obtain ⟨⟨db₁, version⟩, hpublish, h⟩ := bind_eq_ok.mp h.2.2
  cases pure_eq_ok.mp h
  exact ((saveFields_unrecorded ..).trans (publishVersion_unrecorded hpublish)).append

theorem archive_recorded (h : archive db rule actor reason = .ok (db', rule')) :
    db.Recorded db' rule.tenantId actor := by
  rw [archive, seq_eq_ok] at h
  obtain ⟨⟨db₁, version⟩, hpublish, h⟩ := bind_eq_ok.mp h.2
  cases pure_eq_ok.mp h
  exact ((saveFields_unrecorded ..).trans (publishVersion_unrecorded hpublish)).append

theorem revert_recorded (h : revert db tenantId actor toVersion = .ok (db', version)) :
    db.Recorded db' tenantId actor := by
  rw [revert, seq_eq_ok] at h
  obtain ⟨source, -, h⟩ := bind_eq_ok.mp h.2
  obtain ⟨db₁, hcreate, h⟩ := bind_eq_ok.mp h
  cases pure_eq_ok.mp h
  exact (createVersion_unrecorded hcreate).append

/-- **A lifecycle operation that changes something records it.** -/
theorem perform_recorded {s : LifecycleStep} (h : s.perform py db = .ok (db', entries)) :
    db' = db ∨ db.Recorded db' s.tenantId s.actor := by
  obtain ⟨tenantId, actor, op⟩ := s
  cases op with
  | createDraft ruleId content =>
    obtain ⟨⟨db₁, rule⟩, hcreate, h⟩ := bind_eq_ok.mp h
    cases pure_eq_ok.mp h
    exact .inr (createDraft_recorded hcreate)
  | editDraft ruleId patch =>
    obtain ⟨rule, hload, h⟩ := bind_eq_ok.mp h
    obtain ⟨⟨db₁, rule'⟩, hedit, h⟩ := bind_eq_ok.mp h
    cases pure_eq_ok.mp h
    obtain ⟨-, -, rfl⟩ := load_found hload
    exact editDraft_recorded hedit
  | requestApproval ruleId =>
    obtain ⟨rule, hload, h⟩ := bind_eq_ok.mp h
    obtain ⟨⟨db₁, rule'⟩, hrequest, h⟩ := bind_eq_ok.mp h
    cases pure_eq_ok.mp h
    obtain ⟨-, -, rfl⟩ := load_found hload
    exact .inr (requestApproval_recorded hrequest)
  | approve ruleId reason now =>
    obtain ⟨rule, hload, h⟩ := bind_eq_ok.mp h
    obtain ⟨⟨db₁, rule'⟩, happrove, h⟩ := bind_eq_ok.mp h
    cases pure_eq_ok.mp h
    obtain ⟨-, -, rfl⟩ := load_found hload
    exact .inr (approve_recorded happrove)
  | moveToShadow ruleId =>
    obtain ⟨rule, hload, h⟩ := bind_eq_ok.mp h
    obtain ⟨⟨db₁, rule'⟩, hshadow, h⟩ := bind_eq_ok.mp h
    cases pure_eq_ok.mp h
    obtain ⟨-, -, rfl⟩ := load_found hload
    exact .inr (moveToShadow_recorded hshadow)
  | activate ruleId emergencyReason now =>
    obtain ⟨rule, hload, h⟩ := bind_eq_ok.mp h
    obtain ⟨⟨db₁, rule'⟩, hactivate, h⟩ := bind_eq_ok.mp h
    cases pure_eq_ok.mp h
    obtain ⟨-, -, rfl⟩ := load_found hload
    exact .inr (activate_recorded hactivate)
  | archive ruleId reason =>
    obtain ⟨rule, hload, h⟩ := bind_eq_ok.mp h
    obtain ⟨⟨db₁, rule'⟩, harchive, h⟩ := bind_eq_ok.mp h
    cases pure_eq_ok.mp h
    obtain ⟨-, -, rfl⟩ := load_found hload
    exact .inr (archive_recorded harchive)
  | revert toVersion =>
    obtain ⟨⟨db₁, version⟩, hrevert, h⟩ := bind_eq_ok.mp h
    cases pure_eq_ok.mp h
    exact .inr (revert_recorded hrevert)

end

end ComplyLayer
