import ComplyLayer.Verify.Freshness

/-!
# Whether a revert lasts

`revert` copies an older version and leaves the rules and the lists as they are, and the next
version is made of those. So after it the newest version has what the older one had, apart from
what later operations target, exactly as far as the rows had it when it was reverted to.
-/

namespace ComplyLayer

open Theory

/-- `activate` or `archive` of a rule, or a write that creates or updates a named list. -/
def ManagementRequest.isPublishing : ManagementRequest → Bool
  | .lifecycle (.activate _ _ _) | .lifecycle (.archive _ _) => true
  | .createList _ _ | .updateList _ _ | .partialUpdateList _ _ => true
  | _ => false

/-- One publishing operation of a tenant, which goes through. -/
def publishingStep (py : Python) (tenantId : String) (db : ManagementDb) (r : ApiRequest) :
    Option ManagementDb :=
  match r.credentials with
  | none => none
  | some c =>
    if r.request.isPublishing ∧ c.tenantId = tenantId then
      (r.request.perform py db c).toOption
    else none

/-- The operation is on this rule. -/
def ManagementRequest.TargetsRule (request : ManagementRequest) (ruleId : String) : Prop :=
  (∃ emergencyReason now, request = .lifecycle (.activate ruleId emergencyReason now)) ∨
    ∃ reason, request = .lifecycle (.archive ruleId reason)

/-- The operation is on a list that has this name, before it or after it. -/
def ManagementRequest.TargetsList (py : Python) (db : ManagementDb) (request : ManagementRequest)
    (name : String) : Prop :=
  (∃ listId data, request = .createList listId data ∧
    (requiredField data "name" >>= charField py 64) = .ok name) ∨
  ∃ entry data nameOf, request.updates? py = some (entry.id, data, nameOf) ∧
    db.lists.find? entry.id = some entry ∧ (entry.name = name ∨ nameOf entry = .ok name)

/-- None of the operations is on this rule. -/
def RuleUntouched (later : List ApiRequest) (ruleId : String) : Prop :=
  ∀ r ∈ later, ¬ r.request.TargetsRule ruleId

/-- None of the operations is on a list of this name. -/
def ListUntouched (py : Python) (tenantId : String) (db : ManagementDb) (later : List ApiRequest)
    (name : String) : Prop :=
  Along (publishingStep py tenantId) (fun db r => ¬ r.request.TargetsList py db name) db later

/-- One of the operations puts the rule in force. -/
def ActivatedIn (later : List ApiRequest) (ruleId : String) : Prop :=
  ∃ r ∈ later, ∃ emergencyReason now, r.request = .lifecycle (.activate ruleId emergencyReason now)

/-- Rules and lists are those of a version, apart from what the operations target. -/
def SameApartFrom (py : Python) (tenantId : String) (db : ManagementDb) (later : List ApiRequest)
    (rules : List RuleSnapshot) (lists : Dict String Value) (source : RuleSetVersion) : Prop :=
  (∀ entry, RuleUntouched later entry.id → (entry ∈ rules ↔ entry ∈ source.rulesSnapshot)) ∧
    ∀ name, ListUntouched py tenantId db later name →
      lists.get? name = source.listsSnapshot.get? name

/-- The newest version is the older one apart from what the operations target, and enforces no
rule that the older one does not hold and no operation activated. -/
def StaysReverted (py : Python) (tenantId : String) (db db' : ManagementDb)
    (later : List ApiRequest) (source : RuleSetVersion) : Prop :=
  ∃ newest, db'.loadPublished tenantId = some newest ∧
    SameApartFrom py tenantId db later newest.rulesSnapshot newest.listsSnapshot source ∧
    ∀ entry ∈ newest.rulesSnapshot, entry.state = .active →
      (∃ old ∈ source.rulesSnapshot, old.id = entry.id) ∨ ActivatedIn later entry.id

/-- What a publishing operation does: it puts a rule in force, archives it, or writes a list. -/
inductive PublishingEffect (py : Python) (db : ManagementDb) (c : Credentials) :
    ManagementRequest → ManagementDb → Prop
  | activated (rule : Rule) (emergencyReason : Value) (now : Int)
      (found : db.rules.find? rule.id = some rule) (tenant : rule.tenantId = c.tenantId)
      (puts : db.PutsAndPublishes db' { rule with state := .active, activatedAt := some now }
        c.actor.id) :
      PublishingEffect py db c (.lifecycle (.activate rule.id emergencyReason now)) db'
  | archived (rule : Rule) (reason : Value) (found : db.rules.find? rule.id = some rule)
      (tenant : rule.tenantId = c.tenantId)
      (puts : db.PutsAndPublishes db' { rule with state := .archived } c.actor.id) :
      PublishingEffect py db c (.lifecycle (.archive rule.id reason)) db'
  | listed (request : ManagementRequest) (after : Table NamedList.id)
      (publishes : db.PublishesLists db' after c.tenantId c.actor.id)
      (noRule : ∀ ruleId, ¬ request.TargetsRule ruleId)
      (others : ∀ row, row.tenantId = c.tenantId → ¬ request.TargetsList py db row.name →
        (row ∈ after.rows ↔ row ∈ db.lists.rows)) : PublishingEffect py db c request db'

section
variable {py : Python} {db db' : ManagementDb} {r : ApiRequest} {later : List ApiRequest}

theorem perform_publishing_effect {c : Credentials} {request : ManagementRequest}
    (hpublishing : request.isPublishing) (h : request.perform py db c = .ok db') :
    PublishingEffect py db c request db' := by
  have heffect := perform_effect h
  cases heffect with
  | lifecycle op entries effect keys =>
    obtain ⟨⟨db₁, entries'⟩, hperform, hdb⟩ := bind_eq_ok.mp h
    cases pure_eq_ok.mp hdb
    cases op with
    | activate ruleId emergencyReason now =>
      obtain ⟨rule, hload, hperform⟩ := bind_eq_ok.mp hperform
      obtain ⟨⟨db₂, rule'⟩, hactivate, hperform⟩ := bind_eq_ok.mp hperform
      cases pure_eq_ok.mp hperform
      obtain ⟨hfound, rfl, htenant⟩ := load_found hload
      exact .activated rule emergencyReason now hfound htenant (activate_eq_ok hfound hactivate).2.2
    | archive ruleId reason =>
      obtain ⟨rule, hload, hperform⟩ := bind_eq_ok.mp hperform
      obtain ⟨⟨db₂, rule'⟩, harchive, hperform⟩ := bind_eq_ok.mp hperform
      cases pure_eq_ok.mp hperform
      obtain ⟨hfound, rfl, htenant⟩ := load_found hload
      exact .archived rule reason hfound htenant (archive_eq_ok hfound harchive).2
    | _ => cases hpublishing
  | listCreated listId data name values named valued free insert publishes =>
    refine .listed _ _ publishes ?_ fun row _ huntargeted => ?_
    · rintro ruleId (⟨_, _, ⟨⟩⟩ | ⟨_, ⟨⟩⟩)
    · rw [(Table.insert?_eq_some_iff.mp insert).2, List.mem_append, List.mem_singleton]
      refine or_iff_left ?_
      rintro rfl
      exact huntargeted (.inl ⟨listId, data, rfl, named⟩)
  | listUpdated request data entry nameOf name values updates found tenant named valued free
      publishes =>
    refine .listed _ _ publishes ?_ fun row _ huntargeted => ?_
    · rintro ruleId (⟨_, _, rfl⟩ | ⟨_, rfl⟩) <;> cases updates
    · rw [Table.mem_rows_put]
      constructor
      · rintro (⟨rfl, -⟩ | ⟨hrow, -⟩)
        · exact absurd (.inr ⟨entry, data, nameOf, updates, found, .inr named⟩) huntargeted
        · exact hrow
      · intro hrow
        refine .inr ⟨hrow, fun hid => ?_⟩
        cases found.symm.trans (Table.find?_eq_some_iff.mpr ⟨hrow, hid⟩)
        exact huntargeted (.inr ⟨entry, data, nameOf, updates, found, .inl rfl⟩)
  | listDestroyed entry found tenant rules versions keys lists => cases hpublishing
  | keyIssued drawn data key may issuable tenant creator unrevoked same insert => cases hpublishing
  | keyRevoked key reason now may found tenant unrevoked same keys => cases hpublishing
  | quiet request silent same keys =>
    have hnot : request.isPublishing = false := by
      cases request <;> first | rfl | cases silent
    rw [hnot] at hpublishing
    cases hpublishing

theorem publishingStep_effect (h : publishingStep py tenantId db r = some db') :
    ∃ c, c.tenantId = tenantId ∧ PublishingEffect py db c r.request db' ∧
      ManagementEffect py db c r.request db' := by
  unfold publishingStep at h
  split at h
  · cases h
  · rename_i c hc
    split at h
    · rename_i hkind
      cases hperform : r.request.perform py db c with
      | error e =>
        rw [hperform] at h
        cases h
      | ok db₁ =>
        rw [hperform] at h
        cases h
        exact ⟨c, hkind.2, perform_publishing_effect hkind.1 hperform, perform_effect hperform⟩
    · cases h

/-- A publishing operation makes the rows as they are after it the newest version. -/
theorem publishingStep_current (h : publishingStep py tenantId db r = some db') :
    ∃ newest, db'.loadPublished tenantId = some newest ∧ db'.Current tenantId newest := by
  obtain ⟨c, rfl, heffect, -⟩ := publishingStep_effect h
  generalize r.request = request at heffect
  cases heffect with
  | activated rule emergencyReason now found tenant puts =>
    rw [← tenant]
    exact ManagementDb.current_of_publication puts.versions rfl puts.rules puts.lists
  | archived rule reason found tenant puts =>
    rw [← tenant]
    exact ManagementDb.current_of_publication puts.versions rfl puts.rules puts.lists
  | listed request after publishes noRule others =>
    exact ManagementDb.current_of_publication publishes.versions rfl publishes.rules
      publishes.lists

/-- What a publishing operation does to the row of a rule. -/
theorem publishingStep_row (h : publishingStep py tenantId db r = some db') (ruleId : String) :
    (db'.rules.find? ruleId = db.rules.find? ruleId ∧ ¬ r.request.TargetsRule ruleId) ∨
      r.request.TargetsRule ruleId ∧ ∃ row, db'.rules.find? ruleId = some row ∧
        (row.state = .archived ∨ ∃ emergencyReason now,
          r.request = .lifecycle (.activate ruleId emergencyReason now)) := by
  obtain ⟨c, rfl, heffect, -⟩ := publishingStep_effect h
  generalize r.request = request at heffect
  cases heffect with
  | activated rule emergencyReason now found tenant puts =>
    let activated : Rule := { rule with state := .active, activatedAt := some now }
    have hold : db.rules.find? activated.id = some rule := found
    rw [puts.rules, Table.find?_put_of_found hold]
    split
    · rename_i hid
      subst hid
      exact .inr ⟨.inl ⟨emergencyReason, now, rfl⟩, activated, rfl,
        .inr ⟨emergencyReason, now, rfl⟩⟩
    · rename_i hid
      refine .inl ⟨rfl, ?_⟩
      rintro (⟨_, _, ⟨⟩⟩ | ⟨_, ⟨⟩⟩)
      exact hid rfl
  | archived rule reason found tenant puts =>
    let archived : Rule := { rule with state := .archived }
    have hold : db.rules.find? archived.id = some rule := found
    rw [puts.rules, Table.find?_put_of_found hold]
    split
    · rename_i hid
      subst hid
      exact .inr ⟨.inr ⟨reason, rfl⟩, archived, rfl, .inl rfl⟩
    · rename_i hid
      refine .inl ⟨rfl, ?_⟩
      rintro (⟨_, _, ⟨⟩⟩ | ⟨_, ⟨⟩⟩)
      exact hid rfl
  | listed request after publishes noRule others =>
    exact .inl ⟨by rw [publishes.rules], noRule ruleId⟩

/-- Publishing operations leave the row of a rule that none of them is on. -/
theorem untouched_run (hrun : run (publishingStep py tenantId) db later = some db')
    (huntouched : RuleUntouched later ruleId) :
    db'.rules.find? ruleId = db.rules.find? ruleId := by
  induction later generalizing db with
  | nil =>
    cases hrun
    rfl
  | cons r later ih =>
    obtain ⟨db₁, hstep, hrest⟩ := run_cons_eq_some.mp hrun
    rw [ih hrest fun r hr => huntouched r (List.mem_cons_of_mem _ hr)]
    rcases publishingStep_row hstep ruleId with ⟨hsame, -⟩ | ⟨htargets, -⟩
    · exact hsame
    · exact absurd htargets (huntouched r List.mem_cons_self)

/-- A rule that no operation activated is archived, or as it was with none of them on it. -/
theorem not_activated_run (hrun : run (publishingStep py tenantId) db later = some db')
    (hnot : ¬ ActivatedIn later ruleId) (hrow : db'.rules.find? ruleId = some row)
    (hactive : row.state ≠ .archived) : RuleUntouched later ruleId := by
  induction later using List.reverseRecOn generalizing db' row with
  | nil => exact fun _ h => by cases h
  | append_singleton later r ih =>
    obtain ⟨db₁, hbefore, hstep⟩ := run_concat_eq_some.mp hrun
    have hnotBefore : ¬ ActivatedIn later ruleId :=
      fun ⟨q, hq, h⟩ => hnot ⟨q, List.mem_append_left _ hq, h⟩
    rcases publishingStep_row hstep ruleId with
      ⟨hsame, huntouched⟩ | ⟨-, row', hrow', harchived | hactivates⟩
    · rw [hsame] at hrow
      intro q hq
      rcases List.mem_append.mp hq with hq | hq
      · exact ih hbefore hnotBefore hrow hactive q hq
      · rw [List.mem_singleton.mp hq]
        exact huntouched
    · rw [hrow] at hrow'
      cases hrow'
      exact absurd harchived hactive
    · exact absurd ⟨r, by simp, hactivates⟩ hnot

/-- A publishing operation leaves what a tenant has under a name that it is not on. -/
theorem publishingStep_list (hnamed : db.ListsNamed)
    (h : publishingStep py tenantId db r = some db')
    (huntargeted : ¬ r.request.TargetsList py db name) :
    (db'.namedLists tenantId).get? name = (db.namedLists tenantId).get? name := by
  obtain ⟨c, rfl, heffect, hmanagement⟩ := publishingStep_effect h
  have hnamed' := hmanagement.listsNamed hnamed
  generalize r.request = request at heffect huntargeted
  cases heffect with
  | activated rule emergencyReason now found tenant puts =>
    rw [ManagementDb.namedLists_congr puts.lists]
  | archived rule reason found tenant puts => rw [ManagementDb.namedLists_congr puts.lists]
  | listed request after publishes noRule others =>
    apply Option.ext
    intro values
    rw [ManagementDb.get?_namedLists_iff hnamed', ManagementDb.get?_namedLists_iff hnamed,
      publishes.lists]
    refine exists_congr fun row => ?_
    constructor
    · rintro ⟨hrow, htenant, rfl, hvalues⟩
      exact ⟨(others row htenant huntargeted).mp hrow, htenant, rfl, hvalues⟩
    · rintro ⟨hrow, htenant, rfl, hvalues⟩
      exact ⟨(others row htenant huntargeted).mpr hrow, htenant, rfl, hvalues⟩

theorem untouched_list_run (hnamed : db.ListsNamed)
    (hrun : run (publishingStep py tenantId) db later = some db')
    (huntouched : ListUntouched py tenantId db later name) :
    (db'.namedLists tenantId).get? name = (db.namedLists tenantId).get? name := by
  induction later generalizing db with
  | nil =>
    cases hrun
    rfl
  | cons r later ih =>
    obtain ⟨db₁, hstep, hrest⟩ := run_cons_eq_some.mp hrun
    obtain ⟨c, -, -, heffect⟩ := publishingStep_effect hstep
    rw [ih (heffect.listsNamed hnamed) hrest (huntouched.2 db₁ hstep)]
    exact publishingStep_list hnamed hstep huntouched.1

/-- The published entry of a rule that no operation is on. -/
theorem untouched_entry_iff (hrun : run (publishingStep py tenantId) db later = some db')
    (huntouched : RuleUntouched later entry.id) :
    entry ∈ db'.publishedSnapshots tenantId ↔ entry ∈ db.publishedSnapshots tenantId := by
  rw [ManagementDb.mem_publishedSnapshots_iff, ManagementDb.mem_publishedSnapshots_iff]
  refine exists_congr fun row => ?_
  constructor
  · rintro ⟨hrow, hpublished, rfl⟩
    exact ⟨(untouched_run hrun huntouched).symm.trans hrow, hpublished, rfl⟩
  · rintro ⟨hrow, hpublished, rfl⟩
    exact ⟨(untouched_run hrun huntouched).trans hrow, hpublished, rfl⟩

/-- After publishing operations the rows as they are are the newest version. -/
theorem publishing_current (hrun : run (publishingStep py tenantId) db later = some db')
    (hlater : later ≠ []) :
    ∃ newest, db'.loadPublished tenantId = some newest ∧ db'.Current tenantId newest := by
  rcases List.eq_nil_or_concat later with rfl | ⟨before, r, rfl⟩
  · exact absurd rfl hlater
  · rw [List.concat_eq_append] at hrun
    obtain ⟨db₁, -, hstep⟩ := run_concat_eq_some.mp hrun
    exact publishingStep_current hstep

/-- **Whether a revert lasts.** In every run in which a revert to a version succeeds and publishing
operations of the tenant follow, the newest version has what that version has, apart from what the
operations target, exactly when no operation follows or the rules and lists were, apart from what
the operations target, those of that version when it was reverted to. -/
theorem stays_reverted_iff {before : List ApiRequest} {actor : Actor} {copy source : RuleSetVersion}
    (hreach : run (managementStep py) {} before = some db)
    (hrevert : revert db tenantId actor toVersion = .ok (reverted, copy))
    (hsource : db.versions.find? (tenantId, toVersion) = some source)
    (hlater : run (publishingStep py tenantId) reverted later = some db') :
    StaysReverted py tenantId reverted db' later source ↔
      later = [] ∨ SameApartFrom py tenantId reverted later (db.publishedSnapshots tenantId)
        (db.namedLists tenantId) source := by
  obtain ⟨-, source', hsource', hrules, hlists, hinsert⟩ := revert_eq_ok hrevert
  cases hsource.symm.trans hsource'
  have htenant : source.tenantId = tenantId := congrArg Prod.fst (Table.find?_eq_some_iff.mp hsource).2
  have hnamed : reverted.ListsNamed := by
    have hnamed := listsNamed_run listsNamed_empty hreach
    unfold ManagementDb.ListsNamed at hnamed ⊢
    rwa [hlists]
  -- The rows are the same before the revert and after it.
  have hsame (rules : List RuleSnapshot) (lists : Dict String Value) (newest : RuleSetVersion)
      (hrules : ∀ entry, RuleUntouched later entry.id →
        (entry ∈ newest.rulesSnapshot ↔ entry ∈ rules))
      (hlists : ∀ name, ListUntouched py tenantId reverted later name →
        newest.listsSnapshot.get? name = lists.get? name) :
      SameApartFrom py tenantId reverted later newest.rulesSnapshot newest.listsSnapshot source ↔
        SameApartFrom py tenantId reverted later rules lists source := by
    refine and_congr (forall_congr' fun entry => forall_congr' fun huntouched => ?_)
      (forall_congr' fun name => forall_congr' fun huntouched => ?_)
    · rw [hrules entry huntouched]
    · rw [hlists name huntouched]
  by_cases hnone : later = []
  · subst hnone
    cases hlater
    refine ⟨fun _ => .inl rfl, fun _ => ?_⟩
    have hload := (ManagementDb.loadPublished_insert hinsert (by rw [htenant]) tenantId).trans
      (if_pos htenant)
    exact ⟨_, hload, ⟨fun _ _ => Iff.rfl, fun _ _ => rfl⟩, fun entry hentry _ => .inl ⟨entry, hentry, rfl⟩⟩
  · obtain ⟨newest, hload, hnewest⟩ := publishing_current hlater hnone
    have hentry (entry : RuleSnapshot) (huntouched : RuleUntouched later entry.id) :
        entry ∈ newest.rulesSnapshot ↔ entry ∈ db.publishedSnapshots tenantId := by
      rw [hnewest.1, untouched_entry_iff hlater huntouched,
        ManagementDb.publishedSnapshots_congr hrules]
    have hlist (name : String) (huntouched : ListUntouched py tenantId reverted later name) :
        newest.listsSnapshot.get? name = (db.namedLists tenantId).get? name := by
      rw [hnewest.2, untouched_list_run hnamed hlater huntouched,
        ManagementDb.namedLists_congr hlists]
    have hiff := hsame _ _ newest hentry hlist
    constructor
    · rintro ⟨newest', hload', hstays, -⟩
      cases hload.symm.trans hload'
      exact .inr (hiff.mp hstays)
    · intro h
      have hagrees := h.resolve_left hnone
      refine ⟨newest, hload, hiff.mpr hagrees, fun entry hmem hactive => ?_⟩
      by_cases hactivated : ActivatedIn later entry.id
      · exact .inr hactivated
      · rw [hnewest.1] at hmem
        obtain ⟨row, hrow, hpublished, rfl⟩ := ManagementDb.mem_publishedSnapshots_iff.mp hmem
        have harchived : row.state ≠ .archived := by
          intro harchived
          cases harchived.symm.trans hactive
        have huntouched := not_activated_run hlater hactivated hrow harchived
        rw [← hnewest.1] at hmem
        exact .inl ⟨_, ((hiff.mpr hagrees).1 _ huntouched).mp hmem, rfl⟩

end

/-! A version is reverted to, and a list is created: while the rule of the version is in force, and
after it has been archived. -/

def archival : ApiRequest := ⟨some publishOfficer, .lifecycle (.archive "rul_1" (.str ""))⟩

def listCreation : List ApiRequest :=
  [⟨some publishOfficer, .createList 1
    (.ofList [("name", .str "refused"), ("values", .list [.str "NGN"])])⟩]

theorem listCreation_untouched (ruleId : String) : RuleUntouched listCreation ruleId := by
  intro r hr
  rw [List.mem_singleton.mp hr]
  rintro (⟨_, _, ⟨⟩⟩ | ⟨_, ⟨⟩⟩)

/-- What reverting to the first version and creating a list comes to. -/
def revertsThenLists (before : List ApiRequest) :
    Option (ManagementDb × RuleSetVersion × ManagementDb × RuleSetVersion × ManagementDb) := do
  let db ← run (managementStep publishPython) {} before
  let source ← db.versions.find? ("tnt_1", 1)
  let (reverted, copy) ← (revert db "tnt_1" publishOfficer.actor 1).toOption
  let db' ← run (publishingStep publishPython "tnt_1") reverted listCreation
  pure (db, source, reverted, copy, db')

theorem revertsThenLists_eq_some (h : revertsThenLists before = some (db, source, reverted, copy, db')) :
    run (managementStep publishPython) {} before = some db ∧
      db.versions.find? ("tnt_1", 1) = some source ∧
      revert db "tnt_1" publishOfficer.actor 1 = .ok (reverted, copy) ∧
      run (publishingStep publishPython "tnt_1") reverted listCreation = some db' := by
  obtain ⟨db₁, hdb, h⟩ := Option.bind_eq_some_iff.mp h
  obtain ⟨source₁, hsource, h⟩ := Option.bind_eq_some_iff.mp h
  obtain ⟨⟨reverted₁, copy₁⟩, hrevert, h⟩ := Option.bind_eq_some_iff.mp h
  obtain ⟨db₂, hlater, h⟩ := Option.bind_eq_some_iff.mp h
  cases h
  exact ⟨hdb, hsource, toOption_eq_some.mp hrevert, hlater⟩

theorem stays_reverted_in_force : ∃ db source reverted copy db',
    revertsThenLists (putsInForce "rul_1" publishedDraft) =
      some (db, source, reverted, copy, db') ∧
    StaysReverted publishPython "tnt_1" reverted db' listCreation source := by
  have heval : ((revertsThenLists (putsInForce "rul_1" publishedDraft)).map
      fun (db, source, _) => (db.publishedSnapshots "tnt_1" = source.rulesSnapshot ∧
        (db.namedLists "tnt_1").entries.isEmpty ∧ source.listsSnapshot.entries.isEmpty : Bool)) =
      some true := by
    decide +kernel
  obtain ⟨⟨db, source, reverted, copy, db'⟩, hrun, hsame⟩ := Option.map_eq_some_iff.mp heval
  obtain ⟨hrules, hlists, hlists'⟩ := of_decide_eq_true hsame
  obtain ⟨hreach, hsource, hrevert, hlater⟩ := revertsThenLists_eq_some hrun
  refine ⟨db, source, reverted, copy, db', hrun,
    (stays_reverted_iff hreach hrevert hsource hlater).mpr (.inr ⟨?_, ?_⟩)⟩
  · intro entry _
    rw [hrules]
  · intro name _
    rw [Dict.get?, Dict.get?, List.isEmpty_iff.mp hlists, List.isEmpty_iff.mp hlists']

theorem archived_rule_unreverted : ∃ db source reverted copy db',
    revertsThenLists (putsInForce "rul_1" publishedDraft ++ [archival]) =
      some (db, source, reverted, copy, db') ∧
    ¬ StaysReverted publishPython "tnt_1" reverted db' listCreation source := by
  have heval : ((revertsThenLists (putsInForce "rul_1" publishedDraft ++ [archival])).bind
      fun (_, source, _, _, db') => (db'.loadPublished "tnt_1").map
        fun newest => (source.rulesSnapshot.length, newest.rulesSnapshot.length)) =
      some (1, 0) := by
    decide +kernel
  obtain ⟨⟨db, source, reverted, copy, db'⟩, hrun, hnewest⟩ := Option.bind_eq_some_iff.mp heval
  obtain ⟨newest, hload, hpair⟩ := Option.map_eq_some_iff.mp hnewest
  have hone : source.rulesSnapshot.length = 1 := congrArg Prod.fst hpair
  have hnone : newest.rulesSnapshot = [] := List.length_eq_zero_iff.mp (congrArg Prod.snd hpair)
  refine ⟨db, source, reverted, copy, db', hrun, ?_⟩
  rintro ⟨newest', hload', ⟨hrules, -⟩, -⟩
  cases hload.symm.trans hload'
  obtain ⟨entry, hentry⟩ := List.length_eq_one_iff.mp hone
  have hmem := (hrules entry (listCreation_untouched entry.id)).mpr (by rw [hentry]; simp)
  rw [hnone] at hmem
  cases hmem

end ComplyLayer
