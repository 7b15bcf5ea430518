import ComplyLayer.Api.Effects
import ComplyLayer.Engine.Cache

/-!
# Who influences decisions through a list

Every version holds the named lists, and a rule reads them from the version. The list endpoints
look at no role, so a write of a key that may not activate is silent only where it is refused for
another reason: `Admitted` says when it is not.
-/

namespace ComplyLayer

open Theory

/-- A named-list request that the checks of its endpoint let through. -/
inductive Admitted (py : Python) (db : ManagementDb) (c : Credentials) : ManagementRequest → Prop
  | create (listName : String) (listed : Value)
      (name : (requiredField data "name" >>= charField py 64) = .ok listName)
      (values : listValues data (.list []) = .ok listed)
      (free : ∀ row ∈ db.lists.rows, row.tenantId = c.tenantId → row.name ≠ listName)
      (allotted : db.lists.find? listId = none) : Admitted py db c (.createList listId data)
  | update (entry : NamedList) (listName : String) (listed : Value)
      (found : db.lists.find? pk = some entry) (tenant : entry.tenantId = c.tenantId)
      (name : (requiredField data "name" >>= charField py 64) = .ok listName)
      (values : listValues data entry.values = .ok listed)
      (free : ∀ row ∈ db.lists.rows, row.id ≠ pk → row.tenantId = c.tenantId →
        row.name ≠ listName) : Admitted py db c (.updateList pk data)
  | partialUpdate (entry : NamedList) (listName : String) (listed : Value)
      (found : db.lists.find? pk = some entry) (tenant : entry.tenantId = c.tenantId)
      (name : optionalText? py 64 data "name" entry.name = .ok listName)
      (values : listValues data entry.values = .ok listed)
      (free : ∀ row ∈ db.lists.rows, row.id ≠ pk → row.tenantId = c.tenantId →
        row.name ≠ listName) : Admitted py db c (.partialUpdateList pk data)
  | destroy (entry : NamedList) (found : db.lists.find? pk = some entry)
      (tenant : entry.tenantId = c.tenantId) : Admitted py db c (.destroyList pk)

/-- The request writes a named list. -/
def ManagementRequest.isListWrite : ManagementRequest → Bool
  | .createList _ _ | .updateList _ _ | .partialUpdateList _ _ | .destroyList _ => true
  | _ => false

/-- The request writes a named list, and has no key whose role may activate. -/
def ApiRequest.unauthorised (r : ApiRequest) : Bool :=
  r.request.isListWrite && !r.credentials.any fun c => may c.actor.role .activate

/-- No named-list write of a key whose role may not activate gets through. -/
def ListsGuarded (py : Python) (db : ManagementDb) (r : ApiRequest) : Prop :=
  ∀ c, r.credentials = some c → ¬ may c.actor.role .activate → ¬ Admitted py db c r.request

section
variable {py : Python} {db db' : ManagementDb} {c : Credentials} {entry : NamedList}

theorem publishList_ok (db : ManagementDb) (c : Credentials) (eventType : String)
    (entry : NamedList) : ∃ db', db.publishList c eventType entry = .ok db' := by
  obtain ⟨⟨db₁, version⟩, hpublish⟩ := publishVersion_ok db c.tenantId c.actor
  exact ⟨_, bind_eq_ok.mpr ⟨_, hpublish, rfl⟩⟩

theorem performUpdate_ok_iff : (∃ db', db.performUpdate c entry name values = .ok db') ↔
    ∀ row ∈ db.lists.rows, row.id ≠ entry.id → row.tenantId = entry.tenantId → row.name ≠ name := by
  let updated : NamedList :=
    { entry with name := name, values := values, updatedBy := c.actor.id }
  have hfree : db.listNameTaken updated = false ↔ _ := not_listNameTaken_iff
  constructor
  · rintro ⟨db', h⟩
    obtain ⟨db₁, hsave, -⟩ := bind_eq_ok.mp h
    refine hfree.mp ?_
    unfold ManagementDb.saveList at hsave
    split at hsave
    · cases hsave
    · rename_i htaken
      exact Bool.eq_false_iff.mpr htaken
  · intro h
    obtain ⟨db', hpublish⟩ :=
      publishList_ok { db with lists := db.lists.put updated } c "list.updated" updated
    refine ⟨db', bind_eq_ok.mpr ⟨_, ?_, hpublish⟩⟩
    rw [ManagementDb.saveList, if_neg (Bool.eq_false_iff.mp (hfree.mpr h))]

theorem createList_ok_iff : (∃ db', db.createList py c listId data = .ok db') ↔
    Admitted py db c (.createList listId data) := by
  constructor
  · rintro ⟨db', h⟩
    obtain ⟨name, hname, h⟩ := bind_eq_ok.mp h
    obtain ⟨values, hvalues, h⟩ := bind_eq_ok.mp h
    obtain ⟨db₁, hinsert, -⟩ := bind_eq_ok.mp h
    unfold ManagementDb.insertList at hinsert
    split at hinsert
    · cases hinsert
    · rename_i htaken
      have hfree := not_listNameTaken_iff.mp (Bool.eq_false_iff.mpr htaken)
      split at hinsert
      · rename_i lists hlists
        have hallotted := Table.find?_eq_none_iff.mpr (Table.insert?_eq_some_iff.mp hlists).1
        refine .create name values hname hvalues (fun row hrow htenant => ?_) hallotted
        refine hfree row hrow (fun hid => ?_) htenant
        have hfound := Table.find?_eq_some_iff.mpr ⟨hrow, hid⟩
        rw [hallotted] at hfound
        cases hfound
      · cases hinsert
  · intro h
    cases h with | create name values hname hvalues hfree hallotted
    let entry : NamedList := ⟨listId, c.tenantId, name, values, c.actor.id⟩
    have htaken : db.listNameTaken entry = false :=
      not_listNameTaken_iff.mpr fun row hrow _ htenant => hfree row hrow htenant
    cases hinsert : db.lists.insert? entry with
    | none =>
      have hfound : (db.lists.find? listId).isSome := Table.insert?_eq_none_iff.mp hinsert
      rw [hallotted] at hfound
      cases hfound
    | some lists =>
      obtain ⟨db', hpublish⟩ := publishList_ok { db with lists := lists } c "list.created" entry
      refine ⟨db', bind_eq_ok.mpr ⟨name, hname, bind_eq_ok.mpr ⟨values, hvalues,
        bind_eq_ok.mpr ⟨_, ?_, hpublish⟩⟩⟩⟩
      rw [ManagementDb.insertList, if_neg (Bool.eq_false_iff.mp htaken), hinsert]

theorem updateWith_ok_iff {nameOf : NamedList → Except Refusal String} :
    (∃ db', db.updateWith c pk data nameOf = .ok db') ↔
      ∃ entry name values, db.lists.find? pk = some entry ∧ entry.tenantId = c.tenantId ∧
        nameOf entry = .ok name ∧ listValues data entry.values = .ok values ∧
        ∀ row ∈ db.lists.rows, row.id ≠ pk → row.tenantId = c.tenantId → row.name ≠ name := by
  constructor
  · rintro ⟨db', h⟩
    obtain ⟨entry, hload, h⟩ := bind_eq_ok.mp h
    obtain ⟨name, hname, h⟩ := bind_eq_ok.mp h
    obtain ⟨values, hvalues, h⟩ := bind_eq_ok.mp h
    obtain ⟨hfound, htenant⟩ := loadList_eq_ok_iff.mp hload
    have hid : entry.id = pk := (Table.find?_eq_some_iff.mp hfound).2
    have hfree := performUpdate_ok_iff.mp ⟨db', h⟩
    rw [hid, htenant] at hfree
    exact ⟨entry, name, values, hfound, htenant, hname, hvalues, hfree⟩
  · rintro ⟨entry, name, values, hfound, htenant, hname, hvalues, hfree⟩
    have hid : entry.id = pk := (Table.find?_eq_some_iff.mp hfound).2
    rw [← htenant, ← hid] at hfree
    obtain ⟨db', h⟩ := performUpdate_ok_iff.mpr hfree
    exact ⟨db', bind_eq_ok.mpr ⟨entry, loadList_eq_ok_iff.mpr ⟨hfound, htenant⟩,
      bind_eq_ok.mpr ⟨name, hname, bind_eq_ok.mpr ⟨values, hvalues, h⟩⟩⟩⟩

theorem updateList_ok_iff : (∃ db', db.updateList py c pk data = .ok db') ↔
    Admitted py db c (.updateList pk data) := by
  refine updateWith_ok_iff.trans ⟨?_, ?_⟩
  · rintro ⟨entry, name, values, hfound, htenant, hname, hvalues, hfree⟩
    exact .update entry name values hfound htenant hname hvalues hfree
  · intro h
    cases h with
    | update entry name values hfound htenant hname hvalues hfree =>
      exact ⟨entry, name, values, hfound, htenant, hname, hvalues, hfree⟩

theorem partialUpdateList_ok_iff : (∃ db', db.partialUpdateList py c pk data = .ok db') ↔
    Admitted py db c (.partialUpdateList pk data) := by
  refine updateWith_ok_iff.trans ⟨?_, ?_⟩
  · rintro ⟨entry, name, values, hfound, htenant, hname, hvalues, hfree⟩
    exact .partialUpdate entry name values hfound htenant hname hvalues hfree
  · intro h
    cases h with
    | partialUpdate entry name values hfound htenant hname hvalues hfree =>
      exact ⟨entry, name, values, hfound, htenant, hname, hvalues, hfree⟩

theorem destroyList_ok_iff : (∃ db', db.destroyList c pk = .ok db') ↔
    Admitted py db c (.destroyList pk) := by
  constructor
  · rintro ⟨db', h⟩
    obtain ⟨entry, hload, -⟩ := bind_eq_ok.mp h
    obtain ⟨hfound, htenant⟩ := loadList_eq_ok_iff.mp hload
    exact .destroy entry hfound htenant
  · intro h
    cases h with
    | destroy entry hfound htenant =>
      exact ⟨_, bind_eq_ok.mpr ⟨entry, loadList_eq_ok_iff.mpr ⟨hfound, htenant⟩, rfl⟩⟩

/-- A named-list write goes through exactly when it is admitted: no role is asked for. -/
theorem perform_ok_iff {request : ManagementRequest} (hwrite : request.isListWrite) :
    (∃ db', request.perform py db c = .ok db') ↔ Admitted py db c request := by
  cases request with
  | createList listId data => exact createList_ok_iff
  | updateList pk data => exact updateList_ok_iff
  | partialUpdateList pk data => exact partialUpdateList_ok_iff
  | destroyList pk => exact destroyList_ok_iff
  | _ => cases hwrite

/-- A write that its endpoint refuses changes nothing. -/
theorem managementStep_silent {r : ApiRequest} (hguard : ListsGuarded py db r)
    (hr : r.unauthorised) : managementStep py db r = some db := by
  obtain ⟨hwrite, hrole⟩ := Bool.and_eq_true_iff.mp hr
  unfold managementStep
  cases hcredentials : r.credentials with
  | none => rfl
  | some c =>
    have hmay : ¬ may c.actor.role .activate := by simpa [hcredentials] using hrole
    have hrefused := hguard c hcredentials hmay
    cases hperform : r.request.perform py db c with
    | error e => simp only [hperform]
    | ok db' => exact absurd ((perform_ok_iff hwrite).mp ⟨db', hperform⟩) hrefused

/-- **Roles that may change no control.** In a run in which no list write of a key that may not
activate gets through, dropping any of those writes leaves every version that is published, and so
what every decision is answered, as it was. -/
theorem list_writes_silent (keep : ApiRequest → Bool) {requests : List ApiRequest}
    (hkeep : ∀ r, keep r = false → r.unauthorised)
    (hguard : Along (managementStep py) (ListsGuarded py) db requests)
    (hrun : run (managementStep py) db requests = some db') :
    ∃ dropped, run (managementStep py) db (requests.filter keep) = some dropped ∧
      dropped.versions = db'.versions ∧ dropped.lists = db'.lists ∧
      ∀ tenantId salt fallbackPolicy transaction velocity now decisionId,
        dropped.serve py tenantId salt fallbackPolicy transaction velocity now decisionId =
          db'.serve py tenantId salt fallbackPolicy transaction velocity now decisionId := by
  have hsilent : Along (managementStep py)
      (fun db r => keep r = false → managementStep py db r = some db) db requests :=
    hguard.imp fun _ r hr hdropped => managementStep_silent hr (hkeep r hdropped)
  refine ⟨db', ?_, rfl, rfl, fun _ _ _ _ _ _ _ => rfl⟩
  rw [run_filter hsilent, hrun]

end

/-! An engineer's key creates a list, and an officer activates a rule. -/

def listPython : Python := .reading "in_list(currency, refused)"
  (.call (.name "in_list") [.name "currency", .name "refused"] [])

def engineerKey : Credentials := ⟨"tnt_1", "key_engineer", "live", ⟨"key_engineer", .engineer, ""⟩⟩

def analystKey : Credentials :=
  ⟨"tnt_1", "key_analyst", "live", ⟨"key_analyst", .complianceAnalyst, ""⟩⟩

def officerKey : Credentials :=
  ⟨"tnt_1", "key_officer", "live", ⟨"key_officer", .complianceOfficer, ""⟩⟩

def refusedList : Dict String Value :=
  .ofList [("name", .str "refused"), ("values", .list [.str "NGN"])]

/-- A rule that reads the list is drafted, approved and put in force. -/
def putInForce : List ApiRequest :=
  [⟨some analystKey, .lifecycle (.createDraft "rul_1"
      { name := "Refused", category := "aml", expression := "in_list(currency, refused)",
        severity := "block" })⟩,
    ⟨some officerKey, .lifecycle (.approve "rul_1" (.str "") 0)⟩,
    ⟨some officerKey, .lifecycle (.activate "rul_1" (.str "") 1)⟩]

/-- The engineer's key asks to delete a list that is not there, and the officer's creates one. -/
def guardedRequests : List ApiRequest :=
  [⟨some engineerKey, .destroyList 7⟩, ⟨some officerKey, .createList 1 refusedList⟩]

theorem list_writes_silent_guarded :
    ∃ db' dropped, run (managementStep listPython) {} guardedRequests = some db' ∧
      run (managementStep listPython) {} (guardedRequests.filter fun r => !r.unauthorised) =
        some dropped ∧
      dropped.versions = db'.versions := by
  obtain ⟨db', hrun⟩ : ∃ db', run (managementStep listPython) {} guardedRequests = some db' :=
    ⟨_, rfl⟩
  have hguard : Along (managementStep listPython) (ListsGuarded listPython) {}
      guardedRequests := by
    refine ⟨?_, fun _ h => ?_⟩
    · rintro c ⟨⟩ - h
      cases h with
      | destroy entry found tenant => cases found
    · cases h
      refine ⟨?_, fun _ _ => trivial⟩
      rintro c ⟨⟩ hmay
      exact absurd rfl hmay
  obtain ⟨dropped, hdropped, hversions, -⟩ := list_writes_silent (fun r => !r.unauthorised)
    (fun r hr => by simpa using hr) hguard hrun
  exact ⟨db', dropped, hrun, hdropped, hversions⟩

theorem engineer_list_published :
    ∃ db dropped version droppedVersion,
      run (managementStep listPython) {}
        (⟨some engineerKey, .createList 1 refusedList⟩ :: putInForce) = some db ∧
      run (managementStep listPython) {}
        ((⟨some engineerKey, .createList 1 refusedList⟩ :: putInForce).filter
          fun r => !r.unauthorised) = some dropped ∧
      db.loadPublished "tnt_1" = some version ∧
      dropped.loadPublished "tnt_1" = some droppedVersion ∧
      version.listsSnapshot ≠ droppedVersion.listsSnapshot := by
  refine ⟨_, _, _, _, rfl, rfl, rfl, rfl, fun h => ?_⟩
  have hlist : true = false := congrArg (fun lists => lists.contains "refused") h
  cases hlist

end ComplyLayer
