import ComplyLayer.Api.Management
import ComplyLayer.Rules.Records

/-!
# What a management request does

`ManagementEffect` says once what a request that its view lets through does to the rules, the
versions, the named lists and the keys. Every invariant of a run of requests is derived from it.
-/

namespace ComplyLayer

open Theory

/-- The database after a request that leaves these lists and publishes them. -/
structure ManagementDb.PublishesLists (db db' : ManagementDb) (lists : Table NamedList.id)
    (tenantId publisher : String) : Prop where
  rules : db'.rules = db.rules
  keys : db'.keys = db.keys
  versions : db.versions.insert? ({ db with lists := lists }.publication tenantId publisher) =
    some db'.versions
  lists : db'.lists = lists

/-- The list an update is of, the body it sends, and the name it gives the list. -/
def ManagementRequest.updates? (py : Python) :
    ManagementRequest → Option (Nat × Dict String Value × (NamedList → Except Refusal String))
  | .updateList pk data =>
    some (pk, data, fun _ => requiredField data "name" >>= charField py 64)
  | .partialUpdateList pk data =>
    some (pk, data, fun entry => optionalText? py 64 data "name" entry.name)
  | _ => none

/-- The request writes none of the rules, versions, lists and keys. -/
def ManagementRequest.isSilent : ManagementRequest → Bool
  | .reviewDecision _ _ _ | .other => true
  | _ => false

/-- What a request can do to the tables. -/
inductive ManagementEffect (py : Python) (db : ManagementDb) (c : Credentials) :
    ManagementRequest → ManagementDb → Prop
  | lifecycle (op : LifecycleOp) (entries : List Entry)
      (effect : LifecycleEffect ⟨db, []⟩ ⟨c.tenantId, c.actor, op⟩ ⟨db', entries⟩)
      (keys : db'.keys = db.keys) : ManagementEffect py db c (.lifecycle op) db'
  | listCreated (listId : Nat) (data : Dict String Value) (name : String) (values : Value)
      (named : (requiredField data "name" >>= charField py 64) = .ok name)
      (valued : listValues data (.list []) = .ok values)
      (free : ∀ row ∈ db.lists.rows, row.tenantId = c.tenantId → row.name ≠ name)
      (insert : db.lists.insert? ⟨listId, c.tenantId, name, values, c.actor.id⟩ = some lists)
      (publishes : db.PublishesLists db' lists c.tenantId c.actor.id) :
      ManagementEffect py db c (.createList listId data) db'
  | listUpdated (request : ManagementRequest) (data : Dict String Value) (entry : NamedList)
      (nameOf : NamedList → Except Refusal String) (name : String) (values : Value)
      (updates : request.updates? py = some (entry.id, data, nameOf))
      (found : db.lists.find? entry.id = some entry) (tenant : entry.tenantId = c.tenantId)
      (named : nameOf entry = .ok name)
      (valued : listValues data entry.values = .ok values)
      (free : ∀ row ∈ db.lists.rows, row.id ≠ entry.id → row.tenantId = c.tenantId →
        row.name ≠ name)
      (publishes : db.PublishesLists db'
        (db.lists.put { entry with name := name, values := values, updatedBy := c.actor.id })
        c.tenantId c.actor.id) : ManagementEffect py db c request db'
  | listDestroyed (entry : NamedList) (found : db.lists.find? entry.id = some entry)
      (tenant : entry.tenantId = c.tenantId) (rules : db'.rules = db.rules)
      (versions : db'.versions = db.versions) (keys : db'.keys = db.keys)
      (lists : db'.lists = db.lists.erase entry.id) :
      ManagementEffect py db c (.destroyList entry.id) db'
  | keyIssued (drawn : ManagementDb.DrawnKey) (data : Dict String Value) (key : ApiKey)
      (may : may c.actor.role .manageKeys) (issuable : mayIssue c.actor.role key.role)
      (tenant : key.tenantId = c.tenantId) (creator : key.createdBy = c.actor.id)
      (unrevoked : key.revokedAt = none) (same : db.Same db')
      (insert : db.keys.insert? key = some db'.keys) :
      ManagementEffect py db c (.issueKey drawn data) db'
  | keyRevoked (key : ApiKey) (reason : Value) (now : Int) (may : may c.actor.role .manageKeys)
      (found : db.keys.find? key.id = some key) (tenant : key.tenantId = c.tenantId)
      (unrevoked : key.revokedAt = none) (same : db.Same db')
      (keys : db'.keys = db.keys.put { key with revokedAt := some now }) :
      ManagementEffect py db c (.revokeKey key.id reason now) db'
  | quiet (request : ManagementRequest) (silent : request.isSilent) (same : db.Same db')
      (keys : db'.keys = db.keys) : ManagementEffect py db c request db'

section
variable {py : Python} {db db' : ManagementDb} {c : Credentials} {entry : NamedList}

/-- No lifecycle operation touches a key. -/
theorem perform_keys {s : LifecycleStep} (h : s.perform py db = .ok (db', entries)) :
    db'.keys = db.keys := by
  rcases perform_recorded h with rfl | hrecorded
  · rfl
  · exact hrecorded.keys

/-! ## The list endpoints -/

theorem loadList_eq_ok_iff : db.loadList tenantId pk = .ok entry ↔
    db.lists.find? pk = some entry ∧ entry.tenantId = tenantId := by
  have hlist : db.list? tenantId pk = some entry ↔
      db.lists.find? pk = some entry ∧ entry.tenantId = tenantId :=
    Table.find?_filter_eq_some_iff
  rw [← hlist, ManagementDb.loadList]
  cases db.list? tenantId pk <;> simp

theorem not_listNameTaken_iff : db.listNameTaken entry = false ↔
    ∀ row ∈ db.lists.rows, row.id ≠ entry.id → row.tenantId = entry.tenantId →
      row.name ≠ entry.name := by
  unfold ManagementDb.listNameTaken
  simp

theorem publishList_eq_ok (h : db.publishList c eventType entry = .ok db') :
    db.PublishesLists db' db.lists c.tenantId c.actor.id := by
  obtain ⟨⟨db₁, version⟩, hpublish, h⟩ := bind_eq_ok.mp h
  cases pure_eq_ok.mp h
  have hkeys := (publishVersion_unrecorded hpublish).keys
  obtain ⟨db₂, hcreate, h⟩ := bind_eq_ok.mp hpublish
  cases pure_eq_ok.mp h
  obtain ⟨hinsert, hrules, hlists⟩ := createVersion_eq_ok hcreate
  exact ⟨hrules, hkeys, hinsert, hlists⟩

theorem createList_eq_ok (h : db.createList py c listId data = .ok db') :
    ManagementEffect py db c (.createList listId data) db' := by
  obtain ⟨name, hname, h⟩ := bind_eq_ok.mp h
  obtain ⟨values, hvalues, h⟩ := bind_eq_ok.mp h
  obtain ⟨db₁, hinsert, h⟩ := bind_eq_ok.mp h
  unfold ManagementDb.insertList at hinsert
  split at hinsert
  · cases hinsert
  · rename_i htaken
    have hfree := not_listNameTaken_iff.mp (Bool.eq_false_iff.mpr htaken)
    split at hinsert
    · rename_i lists hlists
      cases hinsert
      have hpublishes := publishList_eq_ok h
      have hnew := (Table.insert?_eq_some_iff.mp hlists).1
      refine .listCreated listId data name values hname hvalues (fun row hrow htenant => ?_) hlists
        ⟨hpublishes.rules, hpublishes.keys, hpublishes.versions, hpublishes.lists⟩
      -- A row of the table has another id than the one the database allots.
      exact hfree row hrow (fun hid => hnew (List.mem_map.mpr ⟨row, hrow, hid⟩)) htenant
    · cases hinsert

theorem updateWith_eq_ok {nameOf : NamedList → Except Refusal String}
    {request : ManagementRequest} (hrequest : request.updates? py = some (pk, data, nameOf))
    (hupdate : db.updateWith c pk data nameOf = .ok db') :
    ManagementEffect py db c request db' := by
  obtain ⟨entry, hload, h⟩ := bind_eq_ok.mp hupdate
  obtain ⟨name, hname, h⟩ := bind_eq_ok.mp h
  obtain ⟨values, hvalues, h⟩ := bind_eq_ok.mp h
  obtain ⟨hfound, htenant⟩ := loadList_eq_ok_iff.mp hload
  obtain rfl : entry.id = pk := (Table.find?_eq_some_iff.mp hfound).2
  obtain ⟨db₁, hsave, h⟩ := bind_eq_ok.mp h
  unfold ManagementDb.saveList at hsave
  split at hsave
  · cases hsave
  · rename_i htaken
    cases hsave
    have hfree := not_listNameTaken_iff.mp (Bool.eq_false_iff.mpr htaken)
    rw [htenant] at hfree
    have hpublishes := publishList_eq_ok h
    exact .listUpdated request data entry nameOf name values hrequest hfound htenant hname hvalues
      hfree ⟨hpublishes.rules, hpublishes.keys, hpublishes.versions, hpublishes.lists⟩

theorem destroyList_eq_ok (h : db.destroyList c pk = .ok db') :
    ManagementEffect py db c (.destroyList pk) db' := by
  obtain ⟨entry, hload, h⟩ := bind_eq_ok.mp h
  cases pure_eq_ok.mp h
  obtain ⟨hfound, htenant⟩ := loadList_eq_ok_iff.mp hload
  obtain rfl : entry.id = pk := (Table.find?_eq_some_iff.mp hfound).2
  exact .listDestroyed entry hfound htenant rfl rfl rfl rfl

/-! ## The keys -/

theorem issueKey_eq_ok (h : db.issueKey py c drawn data = .ok db') :
    ManagementEffect py db c (.issueKey drawn data) db' := by
  rw [ManagementDb.issueKey, seq_eq_ok, permit_eq_ok_iff] at h
  obtain ⟨hmay, h⟩ := h
  obtain ⟨name, -, h⟩ := bind_eq_ok.mp h
  obtain ⟨environment, -, h⟩ := bind_eq_ok.mp h
  obtain ⟨role, -, h⟩ := bind_eq_ok.mp h
  rw [seq_eq_ok, mapError_eq_ok] at h
  obtain ⟨hissuable, h⟩ := h
  have hissuable : mayIssue c.actor.role role := by
    unfold requireIssuable at hissuable
    split at hissuable
    · assumption
    · cases hissuable
  obtain ⟨db₁, hinsert, h⟩ := bind_eq_ok.mp h
  cases pure_eq_ok.mp h
  unfold ManagementDb.insertKey at hinsert
  split at hinsert
  · cases hinsert
  · split at hinsert
    · rename_i keys hkeys
      cases hinsert
      exact .keyIssued drawn data _ hmay hissuable rfl rfl rfl ⟨rfl, rfl, rfl⟩ hkeys
    · cases hinsert

theorem loadKey_eq_ok {key : ApiKey} (h : db.loadKey tenantId keyId = .ok key) :
    db.keys.find? keyId = some key ∧ key.tenantId = tenantId := by
  unfold ManagementDb.loadKey at h
  split at h
  · rename_i key' hfound
    cases h
    exact Table.find?_filter_eq_some_iff.mp hfound
  · cases h

theorem revokeKey_eq_ok (h : db.revokeKey c keyId reason now = .ok db') :
    ManagementEffect py db c (.revokeKey keyId reason now) db' := by
  rw [ManagementDb.revokeKey, seq_eq_ok, permit_eq_ok_iff] at h
  obtain ⟨hmay, h⟩ := h
  obtain ⟨key, hload, h⟩ := bind_eq_ok.mp h
  rw [seq_eq_ok] at h
  obtain ⟨hunrevoked, h⟩ := h
  cases pure_eq_ok.mp h
  obtain ⟨hfound, htenant⟩ := loadKey_eq_ok hload
  obtain rfl : key.id = keyId := (Table.find?_eq_some_iff.mp hfound).2
  have hnone : key.revokedAt = none := by
    unfold ManagementDb.requireUnrevoked at hunrevoked
    split at hunrevoked
    · cases hunrevoked
    · rename_i hnone
      exact Option.not_isSome_iff_eq_none.mp hnone
  exact .keyRevoked key reason now hmay hfound htenant hnone ⟨rfl, rfl, rfl⟩ rfl

/-- **What a management request does.** -/
theorem perform_effect {request : ManagementRequest} (h : request.perform py db c = .ok db') :
    ManagementEffect py db c request db' := by
  cases request with
  | lifecycle op =>
    obtain ⟨⟨db₁, entries⟩, hperform, h⟩ := bind_eq_ok.mp h
    cases pure_eq_ok.mp h
    have hstep : lifecycleStep py ⟨db, []⟩ ⟨c.tenantId, c.actor, op⟩ = some ⟨db', entries⟩ := by
      rw [lifecycleStep, hperform]
      rfl
    exact .lifecycle op entries (lifecycleStep_effect hstep) (perform_keys hperform)
  | createList listId data => exact createList_eq_ok h
  | updateList pk data => exact updateWith_eq_ok rfl h
  | partialUpdateList pk data => exact updateWith_eq_ok rfl h
  | destroyList pk => exact destroyList_eq_ok h
  | issueKey drawn data => exact issueKey_eq_ok h
  | revokeKey keyId reason now => exact revokeKey_eq_ok h
  | reviewDecision decisionId reviewStatus notes =>
    obtain ⟨-, h⟩ := seq_eq_ok.mp h
    cases decisionId with
    | none => cases h
    | some decisionId =>
      cases pure_eq_ok.mp h
      exact .quiet _ rfl ⟨rfl, rfl, rfl⟩ rfl
  | other =>
    cases pure_eq_ok.mp h
    exact .quiet _ rfl ⟨rfl, rfl, rfl⟩ rfl

/-- A request leaves the row of a rule alone, or does to it what one lifecycle operation can. -/
theorem ManagementEffect.row {request : ManagementRequest} {row : Rule}
    (h : ManagementEffect py db c request db') (hrow : db'.rules.find? ruleId = some row) :
    db.rules.find? ruleId = some row ∨ ∃ op, request = .lifecycle op ∧
      RowEffect ⟨c.tenantId, c.actor, op⟩ (db.rules.find? ruleId) row := by
  cases h with
  | lifecycle op entries effect keys => exact .inr ⟨op, rfl, effect.row hrow⟩
  | listCreated listId data name values named valued free insert publishes =>
    exact .inl (publishes.rules ▸ hrow)
  | listUpdated request data entry nameOf name values updates found tenant named valued free
      publishes =>
    exact .inl (publishes.rules ▸ hrow)
  | listDestroyed entry found tenant rules versions keys lists => exact .inl (rules ▸ hrow)
  | keyIssued drawn data key may issuable tenant creator unrevoked same insert =>
    exact .inl (same.rules ▸ hrow)
  | keyRevoked key reason now may found tenant unrevoked same keys =>
    exact .inl (same.rules ▸ hrow)
  | quiet request silent same keys => exact .inl (same.rules ▸ hrow)

end

end ComplyLayer
