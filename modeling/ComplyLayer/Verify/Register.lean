import ComplyLayer.Api.Effects
import ComplyLayer.Rules.Register
import ComplyLayer.Verify.Freshness
import ComplyLayer.Verify.Recording

/-!
# The trail tells of every rule and key

Whoever writes the records of the trail down, one after the other, has a register of every rule
and every key as the tables have them, as long as no record of a change that is written already is
refused: nothing in it changes without a record that says so.
-/

namespace ComplyLayer

open Theory

/-- The keys are the same, and the trail has this record more. -/
structure ManagementDb.Notes (db db' : ManagementDb) (event : AuditEvent) : Prop where
  keys : db'.keys = db.keys
  audit : db'.audit = db.audit ++ [event]

/-- The register of the trail is that of the tables. -/
def ManagementDb.Mirrors (db : ManagementDb) : Prop := Register.ofTrail db.audit = db.register

theorem mirrors_empty : ManagementDb.Mirrors {} := rfl

section
variable {py : Python} {db db' : ManagementDb} {rule rule' row : Rule} {actor : Actor}
  {event : AuditEvent} {credentials : Credentials}

/-! ## The register after a write -/

theorem ManagementDb.Unrecorded.notes (h : db.Unrecorded db') (tenantId eventType : String)
    (actor : Actor) (subject : String × String) (payload : List (String × Value)) :
    db.Notes (db'.append tenantId eventType actor subject payload)
      ⟨tenantId, eventType, actor, subject.1, subject.2, payload⟩ :=
  ⟨h.keys, congrArg (· ++ _) h.audit⟩

theorem Register.ofTrail_concat (events : List AuditEvent) (event : AuditEvent) :
    Register.ofTrail (events ++ [event]) = (Register.ofTrail events).note event := by
  rw [ofTrail, List.foldl_append]
  rfl

theorem register_congr (hrules : db'.rules = db.rules) (hkeys : db'.keys = db.keys) :
    db'.register = db.register := by
  rw [ManagementDb.register, ManagementDb.register, hrules, hkeys]

theorem register_putRule (hfound : db.rules.find? row.id = some rule)
    (hrules : db'.rules = db.rules.put row) (hkeys : db'.keys = db.keys) :
    db'.register = db.register.enterRule row.id (some row.account) := by
  rw [ManagementDb.register, ManagementDb.register, Register.enterRule, hkeys]
  congr 1
  funext ruleId
  rw [hrules, Table.find?_put_of_found hfound, Function.update_apply]
  split <;> rfl

theorem register_insertRule (hinsert : db.rules.insert? row = some db'.rules)
    (hkeys : db'.keys = db.keys) :
    db'.register = db.register.enterRule row.id (some row.account) := by
  rw [ManagementDb.register, ManagementDb.register, Register.enterRule, hkeys]
  congr 1
  funext ruleId
  rw [Table.find?_insert? hinsert, Function.update_apply]
  simp only [eq_comm]
  split <;> rfl

theorem register_putKey {key old : ApiKey} (hfound : db.keys.find? key.id = some old)
    (hrules : db'.rules = db.rules) (hkeys : db'.keys = db.keys.put key) :
    db'.register = db.register.enterKey key.id (some key.account) := by
  rw [ManagementDb.register, ManagementDb.register, Register.enterKey, hrules]
  congr 1
  funext keyId
  rw [hkeys, Table.find?_put_of_found hfound, Function.update_apply]
  split <;> rfl

theorem register_insertKey {key : ApiKey} (hinsert : db.keys.insert? key = some db'.keys)
    (hrules : db'.rules = db.rules) :
    db'.register = db.register.enterKey key.id (some key.account) := by
  rw [ManagementDb.register, ManagementDb.register, Register.enterKey, hrules]
  congr 1
  funext keyId
  rw [Table.find?_insert? hinsert, Function.update_apply]
  simp only [eq_comm]
  split <;> rfl

theorem amendRule_register (hfound : db.rules.find? rule.id = some rule)
    (f : RuleAccount → RuleAccount) :
    db.register.amendRule rule.id f = db.register.enterRule rule.id (some (f rule.account)) := by
  have hrule : db.register.rules rule.id = some rule.account :=
    congrArg (Option.map Rule.account) hfound
  rw [Register.amendRule, hrule]
  rfl

namespace ManagementDb.Mirrors

/-- What is recorded is what is written. -/
theorem note (h : db.Mirrors) (haudit : db'.audit = db.audit ++ [event])
    (hnote : db.register.note event = db'.register) : db'.Mirrors := by
  rw [Mirrors, haudit, Register.ofTrail_concat, h, hnote]

/-- Neither the rules nor the keys change, and the record is about neither. -/
theorem other (h : db.Mirrors) (haudit : db'.audit = db.audit ++ [event])
    (hrules : db'.rules = db.rules) (hkeys : db'.keys = db.keys)
    (hnote : ∀ r : Register, r.note event = r) : db'.Mirrors :=
  h.note haudit ((hnote _).trans (register_congr hrules hkeys).symm)

theorem unrecorded (h : db.Mirrors) (haudit : db'.audit = db.audit)
    (hrules : db'.rules = db.rules) (hkeys : db'.keys = db.keys) : db'.Mirrors := by
  rw [Mirrors, haudit, register_congr hrules hkeys]
  exact h

/-- One rule changes, as the record says. -/
theorem amended (h : db.Mirrors) (hfound : db.rules.find? rule.id = some rule)
    (hrules : db'.rules = db.rules.put row) (hid : row.id = rule.id) (hnotes : db.Notes db' event)
    {f : RuleAccount → RuleAccount} (hnote : ∀ r : Register, r.note event = r.amendRule rule.id f)
    (hf : f rule.account = row.account) : db'.Mirrors := by
  refine h.note hnotes.audit ?_
  have hold : db.rules.find? row.id = some rule := by
    rw [hid]
    exact hfound
  rw [hnote, amendRule_register hfound, register_putRule hold hrules hnotes.keys, hid, hf]

end ManagementDb.Mirrors

/-! ## The lifecycle -/

theorem createDraft_mirrors (hm : db.Mirrors)
    (h : createDraft py db tenantId actor ruleId content = .ok (db', rule)) : db'.Mirrors := by
  obtain ⟨-, rfl, hinsert, -, -⟩ := createDraft_eq_ok h
  rw [createDraft, seq_eq_ok, seq_eq_ok] at h
  obtain ⟨db₁, hcreate, h⟩ := bind_eq_ok.mp h.2.2
  cases pure_eq_ok.mp h
  have hnotes := (createRule_unrecorded hcreate).notes tenantId "rule.created" actor ("rule", ruleId)
    [("name", .str content.name), ("expression", .str content.expression),
      ("severity", .str content.severity)]
  refine hm.note hnotes.audit ?_
  rw [register_insertRule hinsert hnotes.keys]
  rfl

theorem editDraft_mirrors (hm : db.Mirrors) (hfound : db.rules.find? rule.id = some rule)
    (h : editDraft py db rule actor patch = .ok (db', rule')) : db'.Mirrors := by
  obtain ⟨-, -, ⟨-, rfl, -⟩ | ⟨hchange, hputs, -⟩⟩ := editDraft_eq_ok h
  · exact hm
  · rw [editDraft, seq_eq_ok, seq_eq_ok, seq_eq_ok] at h
    have h := h.2.2.2
    rw [if_neg fun hempty => hchange (changesOf_isEmpty_iff.mp hempty)] at h
    obtain ⟨db₁, hsave, h⟩ := bind_eq_ok.mp h
    cases pure_eq_ok.mp h
    have hnotes := (saveRule_unrecorded hsave).notes rule.tenantId "rule.edited" actor
      ("rule", rule.id) [("version", .int (rule.edit patch).version),
        ("changes", .list ((changesOf rule.content (patch.apply rule.content)).map
          RuleChange.entry)),
        ("approval_reset", .bool (rule.approvedBy ≠ ""))]
    exact hm.amended hfound hputs.rules rfl hnotes (fun _ => rfl) (account_edit rule patch _)

theorem requestApproval_mirrors (hm : db.Mirrors)
    (h : requestApproval db rule actor = .ok (db', rule')) : db'.Mirrors := by
  rw [requestApproval, seq_eq_ok, seq_eq_ok] at h
  cases pure_eq_ok.mp h.2.2
  exact hm.other rfl rfl rfl fun _ => rfl

theorem approve_mirrors (hm : db.Mirrors) (hfound : db.rules.find? rule.id = some rule)
    (h : approve db rule actor reason now = .ok (db', rule')) : db'.Mirrors := by
  obtain ⟨-, -, rfl, hputs⟩ := approve_eq_ok hfound h
  rw [approve, seq_eq_ok, seq_eq_ok] at h
  cases pure_eq_ok.mp h.2.2
  exact hm.amended hfound hputs.rules rfl ((saveFields_unrecorded ..).notes ..) (fun _ => rfl) rfl

theorem moveToShadow_mirrors (hm : db.Mirrors) (hfound : db.rules.find? rule.id = some rule)
    (h : moveToShadow db rule actor = .ok (db', rule')) : db'.Mirrors := by
  obtain ⟨-, hputs⟩ := moveToShadow_eq_ok hfound h
  rw [moveToShadow, seq_eq_ok] at h
  cases pure_eq_ok.mp h.2
  exact hm.amended hfound hputs.rules rfl ((saveFields_unrecorded ..).notes ..) (fun _ => rfl) rfl

/-- Both kinds of activation are noted alike. -/
theorem note_activation (r : Register) (emergency : Bool) (tenantId : String) (actor : Actor)
    (ruleId : String) (payload : List (String × Value)) :
    r.note ⟨tenantId, if emergency then "rule.emergency_activated" else "rule.activated", actor,
        "rule", ruleId, payload⟩ =
      r.amendRule ruleId fun account => { account with state := .active } := by
  cases emergency <;> rfl

theorem activate_mirrors (hm : db.Mirrors) (hfound : db.rules.find? rule.id = some rule)
    (h : activate db rule actor emergencyReason now = .ok (db', rule')) : db'.Mirrors := by
  obtain ⟨-, -, hputs⟩ := activate_eq_ok hfound h
  rw [activate, seq_eq_ok, seq_eq_ok] at h
  obtain ⟨⟨db₁, version⟩, hpublish, h⟩ := bind_eq_ok.mp h.2.2
  cases pure_eq_ok.mp h
  have hsaved := (saveFields_unrecorded ..).trans (publishVersion_unrecorded hpublish)
  refine hm.amended (f := fun account => { account with state := .active }) hfound hputs.rules rfl
    (hsaved.notes ..) (fun r => note_activation r _ _ _ _ _) rfl

theorem archive_mirrors (hm : db.Mirrors) (hfound : db.rules.find? rule.id = some rule)
    (h : archive db rule actor reason = .ok (db', rule')) : db'.Mirrors := by
  obtain ⟨-, hputs⟩ := archive_eq_ok hfound h
  rw [archive, seq_eq_ok] at h
  obtain ⟨⟨db₁, version⟩, hpublish, h⟩ := bind_eq_ok.mp h.2
  cases pure_eq_ok.mp h
  have hsaved := (saveFields_unrecorded ..).trans (publishVersion_unrecorded hpublish)
  exact hm.amended hfound hputs.rules rfl (hsaved.notes ..) (fun _ => rfl) rfl

theorem revert_mirrors (hm : db.Mirrors) (h : revert db tenantId actor toVersion = .ok (db', version)) :
    db'.Mirrors := by
  obtain ⟨-, -, -, hrules, -, -⟩ := revert_eq_ok h
  rw [revert, seq_eq_ok] at h
  obtain ⟨source, -, h⟩ := bind_eq_ok.mp h.2
  obtain ⟨db₁, hcreate, h⟩ := bind_eq_ok.mp h
  cases pure_eq_ok.mp h
  have hnotes := (createVersion_unrecorded hcreate).notes tenantId "ruleset.reverted" actor
  exact hm.other (hnotes _ _).audit hrules (hnotes _ _).keys fun _ => rfl

theorem perform_mirrors {s : LifecycleStep} (hm : db.Mirrors)
    (h : s.perform py db = .ok (db', entries)) : db'.Mirrors := by
  obtain ⟨tenantId, actor, op⟩ := s
  cases op with
  | createDraft ruleId content =>
    obtain ⟨⟨db₁, rule⟩, hcreate, h⟩ := bind_eq_ok.mp h
    cases pure_eq_ok.mp h
    exact createDraft_mirrors hm hcreate
  | editDraft ruleId patch =>
    obtain ⟨rule, hload, h⟩ := bind_eq_ok.mp h
    obtain ⟨⟨db₁, rule'⟩, hedit, h⟩ := bind_eq_ok.mp h
    cases pure_eq_ok.mp h
    exact editDraft_mirrors hm (load_found hload).1 hedit
  | requestApproval ruleId =>
    obtain ⟨rule, hload, h⟩ := bind_eq_ok.mp h
    obtain ⟨⟨db₁, rule'⟩, hrequest, h⟩ := bind_eq_ok.mp h
    cases pure_eq_ok.mp h
    exact requestApproval_mirrors hm hrequest
  | approve ruleId reason now =>
    obtain ⟨rule, hload, h⟩ := bind_eq_ok.mp h
    obtain ⟨⟨db₁, rule'⟩, happrove, h⟩ := bind_eq_ok.mp h
    cases pure_eq_ok.mp h
    exact approve_mirrors hm (load_found hload).1 happrove
  | moveToShadow ruleId =>
    obtain ⟨rule, hload, h⟩ := bind_eq_ok.mp h
    obtain ⟨⟨db₁, rule'⟩, hshadow, h⟩ := bind_eq_ok.mp h
    cases pure_eq_ok.mp h
    exact moveToShadow_mirrors hm (load_found hload).1 hshadow
  | activate ruleId emergencyReason now =>
    obtain ⟨rule, hload, h⟩ := bind_eq_ok.mp h
    obtain ⟨⟨db₁, rule'⟩, hactivate, h⟩ := bind_eq_ok.mp h
    cases pure_eq_ok.mp h
    exact activate_mirrors hm (load_found hload).1 hactivate
  | archive ruleId reason =>
    obtain ⟨rule, hload, h⟩ := bind_eq_ok.mp h
    obtain ⟨⟨db₁, rule'⟩, harchive, h⟩ := bind_eq_ok.mp h
    cases pure_eq_ok.mp h
    exact archive_mirrors hm (load_found hload).1 harchive
  | revert toVersion =>
    obtain ⟨⟨db₁, version⟩, hrevert, h⟩ := bind_eq_ok.mp h
    cases pure_eq_ok.mp h
    exact revert_mirrors hm hrevert

/-! ## Lists, keys and reviews -/

theorem publishVersion_rules (h : publishVersion db tenantId actor = .ok (db', version)) :
    db'.rules = db.rules := by
  obtain ⟨db₁, hcreate, h⟩ := bind_eq_ok.mp h
  cases pure_eq_ok.mp h
  exact (createVersion_eq_ok hcreate).2.1

theorem publishList_mirrors {entry : NamedList} (hm : db.Mirrors)
    (htype : eventType = "list.created" ∨ eventType = "list.updated")
    (h : db.publishList credentials eventType entry = .ok db') : db'.Mirrors := by
  obtain ⟨⟨db₁, version⟩, hpublish, h⟩ := bind_eq_ok.mp h
  cases pure_eq_ok.mp h
  have hunrecorded := publishVersion_unrecorded hpublish
  have hrules := publishVersion_rules hpublish
  refine hm.other (congrArg (· ++ _) hunrecorded.audit) hrules hunrecorded.keys fun r => ?_
  obtain rfl | rfl := htype <;> rfl

theorem insertList_mirrors {entry : NamedList} (hm : db.Mirrors)
    (h : db.insertList entry = .ok db') : db'.Mirrors := by
  unfold ManagementDb.insertList at h
  split at h
  · cases h
  · split at h
    · cases h
      exact hm.unrecorded rfl rfl rfl
    · cases h

theorem createList_mirrors (hm : db.Mirrors)
    (h : db.createList py credentials listId data = .ok db') : db'.Mirrors := by
  obtain ⟨name, -, h⟩ := bind_eq_ok.mp h
  obtain ⟨values, -, h⟩ := bind_eq_ok.mp h
  obtain ⟨db₁, hinsert, h⟩ := bind_eq_ok.mp h
  exact publishList_mirrors (insertList_mirrors hm hinsert) (.inl rfl) h

theorem updateWith_mirrors {nameOf : NamedList → Except Refusal String} (hm : db.Mirrors)
    (h : db.updateWith credentials pk data nameOf = .ok db') : db'.Mirrors := by
  obtain ⟨entry, -, h⟩ := bind_eq_ok.mp h
  obtain ⟨name, -, h⟩ := bind_eq_ok.mp h
  obtain ⟨values, -, h⟩ := bind_eq_ok.mp h
  obtain ⟨db₁, hsave, h⟩ := bind_eq_ok.mp h
  have hsaved : db₁.Mirrors := by
    unfold ManagementDb.saveList at hsave
    split at hsave
    · cases hsave
    · cases hsave
      exact hm.unrecorded rfl rfl rfl
  exact publishList_mirrors hsaved (.inr rfl) h

theorem destroyList_mirrors (hm : db.Mirrors) (h : db.destroyList credentials pk = .ok db') :
    db'.Mirrors := by
  obtain ⟨entry, -, h⟩ := bind_eq_ok.mp h
  cases pure_eq_ok.mp h
  exact hm.unrecorded rfl rfl rfl

theorem issueKey_mirrors (hm : db.Mirrors)
    (h : db.issueKey py credentials drawn data = .ok db') : db'.Mirrors := by
  rw [ManagementDb.issueKey, seq_eq_ok] at h
  obtain ⟨name, -, h⟩ := bind_eq_ok.mp h.2
  obtain ⟨environment, -, h⟩ := bind_eq_ok.mp h
  obtain ⟨role, -, h⟩ := bind_eq_ok.mp h
  rw [seq_eq_ok] at h
  obtain ⟨db₁, hinsert, h⟩ := bind_eq_ok.mp h.2
  cases pure_eq_ok.mp h
  unfold ManagementDb.insertKey at hinsert
  split at hinsert
  · cases hinsert
  · split at hinsert
    · rename_i keys hkeys
      cases hinsert
      have hinserted := @register_insertKey db { db with keys := keys } _ hkeys rfl
      exact hm.note rfl hinserted.symm
    · cases hinsert

theorem revokeKey_mirrors (hm : db.Mirrors)
    (h : db.revokeKey credentials keyId reason now = .ok db') : db'.Mirrors := by
  rw [ManagementDb.revokeKey, seq_eq_ok] at h
  obtain ⟨key, hload, h⟩ := bind_eq_ok.mp h.2
  rw [seq_eq_ok] at h
  cases pure_eq_ok.mp h.2
  obtain ⟨hfound, -⟩ := loadKey_eq_ok hload
  obtain rfl : key.id = keyId := (Table.find?_eq_some_iff.mp hfound).2
  have hnote : db.register.note ⟨credentials.tenantId, "apikey.revoked", credentials.actor,
      "api_key", key.id, [("prefix", .str key.keyPrefix), ("reason", reason)]⟩ =
      db.register.enterKey key.id (some { key.account with revoked := true }) := by
    have hkey : db.register.keys key.id = some key.account :=
      congrArg (Option.map ApiKey.account) hfound
    simp only [Register.note, hkey]
    rfl
  have hold : db.keys.find? ({ key with revokedAt := some now } : ApiKey).id = some key := hfound
  refine hm.note rfl (hnote.trans (Eq.symm ?_))
  exact register_putKey hold rfl rfl

theorem reviewDecision_mirrors (hm : db.Mirrors)
    (h : db.reviewDecision credentials decisionId reviewStatus notes = .ok db') : db'.Mirrors := by
  obtain ⟨-, -, h⟩ := bind_eq_ok.mp h
  cases decisionId with
  | none => cases h
  | some decisionId =>
    cases pure_eq_ok.mp h
    exact hm.other rfl rfl rfl fun _ => rfl

/-! ## Every run -/

theorem request_mirrors {request : ManagementRequest} (hm : db.Mirrors)
    (h : request.perform py db credentials = .ok db') : db'.Mirrors := by
  cases request with
  | lifecycle op =>
    obtain ⟨⟨db₁, entries⟩, hop, h⟩ := bind_eq_ok.mp h
    cases pure_eq_ok.mp h
    exact perform_mirrors hm hop
  | createList listId data => exact createList_mirrors hm h
  | updateList pk data => exact updateWith_mirrors hm h
  | partialUpdateList pk data => exact updateWith_mirrors hm h
  | destroyList pk => exact destroyList_mirrors hm h
  | issueKey drawn data => exact issueKey_mirrors hm h
  | revokeKey keyId reason now => exact revokeKey_mirrors hm h
  | reviewDecision decisionId reviewStatus notes => exact reviewDecision_mirrors hm h
  | other =>
    cases pure_eq_ok.mp h
    exact hm

/-- The request writes something and loses the record of it. -/
def ApiRequest.LosesRecord (py : Python) (db : ManagementDb) (r : ApiRequest) : Prop :=
  ∃ credentials, r.credentials = some credentials ∧
    match r.request with
    | .lifecycle op =>
      LifecycleStep.LosesRecord py (fun _ => false) db ⟨credentials.tenantId, credentials.actor, op⟩
    | request => ∃ db', request.perform py db credentials = .ok db' ∧
        ∃ event ∈ db.recordsFrom db', event.storable = false

/-- A lifecycle operation leaves what it does, or nothing. -/
theorem transact_mirrors {s : LifecycleStep} (hm : db.Mirrors)
    (hlost : ¬ s.LosesRecord py (fun _ => false) db) :
    ((s.transact py).request (fun _ => false) db).2.Mirrors := by
  rcases hrequest : (s.transact py).request (fun _ => false) db with ⟨e | entries, db'⟩
  · by_cases hsame : db' = db
    · exact hsame ▸ hm
    · exact absurd (LifecycleStep.torn_iff.mp ⟨e, db', hrequest, hsame⟩) hlost
  · exact perform_mirrors hm (LifecycleStep.transact_ok hrequest)

/-- A request that is written before its record leaves what it does, or nothing. -/
theorem settle_mirrors {request : ManagementRequest} (hm : db.Mirrors)
    (hkept : ∀ db', request.perform py db credentials = .ok db' →
      (db.recordsFrom db').all AuditEvent.storable) :
    (request.settle py db credentials).Mirrors := by
  unfold ManagementRequest.settle
  cases hperform : request.perform py db credentials with
  | error e => exact hm
  | ok db' =>
    dsimp only
    rw [if_pos (hkept db' hperform)]
    exact request_mirrors hm hperform

theorem recordingStep_mirrors {r : ApiRequest} (hm : db.Mirrors) (hlost : ¬ r.LosesRecord py db)
    (h : recordingStep py db r = some db') : db'.Mirrors := by
  obtain ⟨credentials, request⟩ := r
  unfold recordingStep at h
  cases credentials with
  | none =>
    cases h
    exact hm
  | some credentials =>
    cases request with
    | lifecycle op =>
      cases h
      exact transact_mirrors hm fun hloses => hlost ⟨credentials, rfl, hloses⟩
    | _ =>
      cases h
      refine settle_mirrors hm fun db' hperform => List.all_eq_true.mpr fun event hevent => ?_
      by_contra hrefused
      exact hlost ⟨credentials, rfl, db', hperform, event, hevent, Bool.eq_false_iff.mpr hrefused⟩

/-- **The trail tells**: after every run of requests in which none loses the record of what it
writes, the records say of every rule and every key what the tables do. -/
theorem trail_tells (requests : List ApiRequest)
    (hkept : Along (recordingStep py) (fun db r => ¬ r.LosesRecord py db) {} requests)
    (hrun : run (recordingStep py) {} requests = some db) :
    (∀ ruleId, (Register.ofTrail db.audit).rules ruleId =
        (db.rules.find? ruleId).map Rule.account) ∧
      ∀ keyId, (Register.ofTrail db.audit).keys keyId =
        (db.keys.find? keyId).map ApiKey.account := by
  have hstep (u : ManagementDb) (r : ApiRequest) (v : ManagementDb) (hm : u.Mirrors)
      (hlost : ¬ r.LosesRecord py u) (h : recordingStep py u r = some v) : v.Mirrors :=
    recordingStep_mirrors hm hlost h
  have hmirrors : db.Mirrors := hkept.invariant hstep mirrors_empty hrun
  rw [ManagementDb.Mirrors] at hmirrors
  rw [hmirrors]
  exact ⟨fun _ => rfl, fun _ => rfl⟩

end

/-- An operation that returns has not lost its record. -/
theorem not_losesRecord_of_isOk {py : Python} {db : ManagementDb} {credentials : Credentials}
    {op : LifecycleOp}
    (h : ((LifecycleStep.transact py ⟨credentials.tenantId, credentials.actor, op⟩).request
      (fun _ => false) db).1.isOk) :
    ¬ ApiRequest.LosesRecord py db ⟨some credentials, .lifecycle op⟩ := by
  rintro ⟨_, ⟨⟩, hloses⟩
  obtain ⟨e, db', hrequest, -⟩ := LifecycleStep.torn_iff.mpr hloses
  rw [hrequest] at h
  cases h

/-- The register of a rule that was put in force and moved to shadow. -/
theorem trail_tells_shadowed : ∃ db,
    run (recordingStep publishPython) {} (putsInForce "rul_1" publishedDraft ++ [shadowing]) =
      some db ∧
    ∀ ruleId, (Register.ofTrail db.audit).rules ruleId =
      (db.rules.find? ruleId).map Rule.account := by
  have hkept : Along (recordingStep publishPython) (fun db r => ¬ r.LosesRecord publishPython db) {}
      (putsInForce "rul_1" publishedDraft ++ [shadowing]) := by
    refine ⟨not_losesRecord_of_isOk rfl, fun db hdb => ?_⟩
    cases hdb
    refine ⟨not_losesRecord_of_isOk rfl, fun db hdb => ?_⟩
    cases hdb
    refine ⟨not_losesRecord_of_isOk rfl, fun db hdb => ?_⟩
    cases hdb
    exact ⟨not_losesRecord_of_isOk rfl, fun _ _ => trivial⟩
  exact ⟨_, rfl, (trail_tells _ hkept rfl).1⟩

end ComplyLayer
