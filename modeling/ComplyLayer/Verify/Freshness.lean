import ComplyLayer.Api.Publication

/-!
# Whether the newest version is what is in force

`activate`, `archive` and a write of a list publish what they change. Moving a rule to shadow, an
edit of a rule in shadow and deleting a list change what a version would hold and publish nothing.
In a run without reverts the newest version is stale exactly from the first of those on.
-/

namespace ComplyLayer

open Theory

/-- The newest version of a tenant is its rules in force and in shadow and its lists, as they are.
A tenant without a version has none of them. -/
def ManagementDb.Fresh (db : ManagementDb) (tenantId : String) : Prop :=
  match db.loadPublished tenantId with
  | some version => db.Current tenantId version
  | none => db.publishedSnapshots tenantId = [] ∧ db.namedLists tenantId = ∅

/-- Where the request goes through and publishes nothing, it changes nothing a version holds. -/
def PublishesItsChange (py : Python) (db : ManagementDb) (r : ApiRequest) : Prop :=
  ∀ c, r.credentials = some c →
    match r.request with
    | .lifecycle (.moveToShadow ruleId) => ∀ rule, db.rules.find? ruleId = some rule →
      rule.tenantId = c.tenantId → may c.actor.role .shadow → rule.state = .shadow
    | .lifecycle (.editDraft ruleId patch) => ∀ rule, db.rules.find? ruleId = some rule →
      rule.tenantId = c.tenantId → may c.actor.role .editDraft → rule.state = .shadow →
      validatePatch py patch = .ok () → db.nameVersionTaken (rule.edit patch) = false →
        (rule.edit patch).snapshot = rule.snapshot
    | .destroyList pk => ∀ entry, db.lists.find? pk = some entry → entry.tenantId ≠ c.tenantId
    | _ => True

/-- The request is no revert. -/
def ApiRequest.NoRevert (r : ApiRequest) : Prop :=
  ∀ toVersion, r.request ≠ .lifecycle (.revert toVersion)

/-- Whatever the request does, every tenant's newest version is fresh after it. -/
def FreshAfter (py : Python) (db : ManagementDb) (r : ApiRequest) : Prop :=
  ∀ db', managementStep py db r = some db' → ∀ tenantId, db'.Fresh tenantId

/-- Two moments of a run with one newest version have the same rules in force and in shadow, and
the same lists. -/
def SameVersionSameControl (py : Python) (db : ManagementDb) (requests : List ApiRequest) : Prop :=
  ∀ pre mid post u u' tenantId version version', requests = pre ++ (mid ++ post) →
    run (managementStep py) db pre = some u → run (managementStep py) u mid = some u' →
    u.loadPublished tenantId = some version → u'.loadPublished tenantId = some version' →
    version'.version = version.version →
      u'.publishedSnapshots tenantId = u.publishedSnapshots tenantId ∧
        u'.namedLists tenantId = u.namedLists tenantId

section
variable {py : Python} {db db' : ManagementDb} {c : Credentials} {r : ApiRequest}

/-- Nothing a version holds has changed. -/
theorem ManagementDb.Fresh.of_same (h : db.Fresh tenantId)
    (hload : db'.loadPublished tenantId = db.loadPublished tenantId)
    (hrules : db'.publishedSnapshots tenantId = db.publishedSnapshots tenantId)
    (hlists : db'.namedLists tenantId = db.namedLists tenantId) : db'.Fresh tenantId := by
  unfold Fresh Current at h ⊢
  rw [hload, hrules, hlists]
  exact h

/-- Between two fresh moments without a version in between, nothing a version holds has changed. -/
theorem ManagementDb.Fresh.same (h : db.Fresh tenantId) (h' : db'.Fresh tenantId)
    (hload : db'.loadPublished tenantId = db.loadPublished tenantId) :
    db'.publishedSnapshots tenantId = db.publishedSnapshots tenantId ∧
      db'.namedLists tenantId = db.namedLists tenantId := by
  unfold Fresh at h h'
  rw [hload] at h'
  cases hversion : db.loadPublished tenantId with
  | none =>
    simp only [hversion] at h h'
    exact ⟨h'.1.trans h.1.symm, h'.2.trans h.2.symm⟩
  | some version =>
    simp only [hversion] at h h'
    exact ⟨h'.1.symm.trans h.1, h'.2.symm.trans h.2⟩

/-- An edit that goes through was valid, to a name and version that were free. -/
theorem edit_valid {rule : Rule}
    (h : (ManagementRequest.lifecycle (.editDraft rule.id patch)).perform py db c = .ok db')
    (hfound : db.rules.find? rule.id = some rule)
    (hchange : (rule.edit patch).content ≠ rule.content) :
    validatePatch py patch = .ok () ∧ db.nameVersionTaken (rule.edit patch) = false := by
  obtain ⟨⟨db₁, entries⟩, hperform, -⟩ := bind_eq_ok.mp h
  obtain ⟨loaded, hload, hperform⟩ := bind_eq_ok.mp hperform
  obtain ⟨⟨db₂, edited⟩, hedit, -⟩ := bind_eq_ok.mp hperform
  obtain rfl : loaded = rule :=
    Option.some.inj ((ManagementDb.load_eq_ok_iff.mp hload).1.symm.trans hfound)
  rw [editDraft, seq_eq_ok, seq_eq_ok, seq_eq_ok] at hedit
  obtain ⟨-, -, hvalid, hedit⟩ := hedit
  have hnonempty : ¬ (changesOf loaded.content (patch.apply loaded.content)).isEmpty :=
    fun hempty => hchange (changesOf_isEmpty_iff.mp hempty)
  dsimp only at hedit
  rw [if_neg hnonempty] at hedit
  obtain ⟨db₃, hsave, -⟩ := bind_eq_ok.mp hedit
  unfold ManagementDb.saveRule at hsave
  split at hsave
  · cases hsave
  · rename_i htaken
    exact ⟨hvalid, Bool.eq_false_iff.mpr htaken⟩

theorem shadow_eq {rule : Rule} (h : rule.state = .shadow) : rule = { rule with state := .shadow } := by
  cases rule
  cases h
  rfl

/-- A request that goes through and publishes nothing changes nothing a version holds. -/
theorem keeps_tenant {request : ManagementRequest} (hperform : request.perform py db c = .ok db')
    (hguard : PublishesItsChange py db ⟨some c, request⟩)
    (hversions : db'.versions = db.versions) :
    db'.publishedSnapshots c.tenantId = db.publishedSnapshots c.tenantId ∧
      db'.namedLists c.tenantId = db.namedLists c.tenantId := by
  have hguard := hguard c rfl
  -- A version is never one that is there already.
  have hnew {version : RuleSetVersion} {C : Prop}
      (insert : db.versions.insert? version = some db'.versions) : C := by
    have hrows := (Table.insert?_eq_some_iff.mp insert).2
    rw [hversions] at hrows
    simp at hrows
  have hkept (hrules : db'.rules = db.rules) (hlists : db'.lists = db.lists) :
      db'.publishedSnapshots c.tenantId = db.publishedSnapshots c.tenantId ∧
        db'.namedLists c.tenantId = db.namedLists c.tenantId :=
    ⟨ManagementDb.publishedSnapshots_congr hrules, ManagementDb.namedLists_congr hlists⟩
  cases perform_effect hperform with
  | lifecycle op entries effect keys =>
    cases effect with
    | quiet same => exact hkept same.rules same.lists
    | created ruleId content op may insert versions lists =>
      refine ⟨ManagementDb.publishedSnapshots_insert insert ?_, ManagementDb.namedLists_congr lists⟩
      rintro ⟨-, h | h⟩ <;> cases h
    | edited rule patch op may found tenant editable change puts =>
      cases op
      have hold : db.rules.find? (rule.edit patch).id = some rule := found
      refine ⟨ManagementDb.publishedSnapshots_put puts.rules hold Iff.rfl fun hpublished => ?_,
        ManagementDb.namedLists_congr puts.lists⟩
      rcases editable with hdraft | hshadow
      · rcases hpublished.2 with h | h <;> cases h.symm.trans hdraft
      · obtain ⟨hvalid, hfree⟩ := edit_valid hperform found change
        exact hguard rule found tenant may hshadow hvalid hfree
    | approved rule reason now op may found tenant notAuthor puts =>
      let approved : Rule := { rule with approvedBy := c.actor.id, approvedAt := some now }
      have hold : db.rules.find? approved.id = some rule := found
      exact ⟨ManagementDb.publishedSnapshots_put puts.rules hold Iff.rfl fun _ => rfl,
        ManagementDb.namedLists_congr puts.lists⟩
    | shadowed rule op may found tenant puts =>
      cases op
      have hshadow := hguard rule found tenant may
      let shadowed : Rule := { rule with state := .shadow }
      have hold : db.rules.find? shadowed.id = some rule := found
      have hsame : rule = shadowed := shadow_eq hshadow
      have hpublished : rule.PublishedFor c.tenantId ↔ shadowed.PublishedFor c.tenantId := by
        rw [← hsame]
      exact ⟨ManagementDb.publishedSnapshots_put puts.rules hold hpublished
        fun _ => congrArg Rule.snapshot hsame.symm, ManagementDb.namedLists_congr puts.lists⟩
    | activated rule emergencyReason now op may found tenant approval puts => exact hnew puts.versions
    | archived rule reason op may found tenant puts => exact hnew puts.versions
    | reverted toVersion source op may found rules lists versions => exact hnew versions
  | listCreated listId data name values named valued free insert publishes =>
    exact hnew publishes.versions
  | listUpdated request data entry nameOf name values updates found tenant named valued free
      publishes =>
    exact hnew publishes.versions
  | listDestroyed entry found tenant rules versions keys lists =>
    exact absurd tenant (hguard entry found)
  | keyIssued drawn data key may issuable tenant creator unrevoked same insert =>
    exact hkept same.rules same.lists
  | keyRevoked key reason now may found tenant unrevoked same keys =>
    exact hkept same.rules same.lists
  | quiet request silent same keys => exact hkept same.rules same.lists

/-- A step is refused and changes nothing, or is what its view does for the key. -/
theorem managementStep_cases (h : managementStep py db r = some db') :
    db' = db ∨ ∃ c, r.credentials = some c ∧ r.request.perform py db c = .ok db' := by
  unfold managementStep at h
  split at h
  · cases h
    exact .inl rfl
  · rename_i c hc
    split at h
    · rename_i hperform
      cases h
      exact .inr ⟨c, hc, hperform⟩
    · cases h
      exact .inl rfl

/-- A step that publishes what it changes keeps every tenant's newest version fresh. -/
theorem fresh_step (hfresh : ∀ tenantId, db.Fresh tenantId) (hrevert : r.NoRevert)
    (hguard : PublishesItsChange py db r) : FreshAfter py db r := by
  intro db' hstep tenantId
  obtain ⟨credentials, request⟩ := r
  rcases managementStep_cases hstep with rfl | ⟨c, rfl, hperform⟩
  · exact hfresh tenantId
  · have heffect := perform_effect hperform
    rcases heffect.publishes.loadPublished tenantId with
      ⟨hload, hversions⟩ | ⟨rfl, version, hload, -, hversion⟩
    · by_cases hother : c.tenantId = tenantId
      · subst hother
        obtain ⟨hrules, hlists⟩ := keeps_tenant hperform hguard (hversions rfl)
        exact (hfresh c.tenantId).of_same hload hrules hlists
      · obtain ⟨hrules, hlists⟩ := heffect.other_tenant hother
        exact (hfresh tenantId).of_same hload hrules hlists
    · unfold ManagementDb.Fresh
      rw [hload]
      rcases hversion with hcurrent | ⟨toVersion, -, rfl, -⟩
      · exact hcurrent
      · exact absurd rfl (hrevert toVersion)

/-- The entry of a rule is the same before and after, where the published rules are. -/
theorem snapshot_same {rule row : Rule} (hfound : db.rules.find? row.id = some rule)
    (hput : db'.rules.find? row.id = some row) (hpublished : row.PublishedFor tenantId)
    (hsame : db'.publishedSnapshots tenantId = db.publishedSnapshots tenantId) :
    row.snapshot = rule.snapshot := by
  have hmem : row.snapshot ∈ db'.publishedSnapshots tenantId :=
    ManagementDb.mem_publishedSnapshots_iff.mpr ⟨row, hput, hpublished, rfl⟩
  rw [hsame] at hmem
  obtain ⟨old, hold, -, hsnapshot⟩ := ManagementDb.mem_publishedSnapshots_iff.mp hmem
  have hid : old.id = row.id := congrArg RuleSnapshot.id hsnapshot
  rw [hid, hfound] at hold
  cases hold
  exact hsnapshot.symm

/-- A step that keeps every tenant's newest version fresh publishes what it changes. -/
theorem publishesItsChange_of_fresh (hfresh : ∀ tenantId, db.Fresh tenantId)
    (hnamed : db.ListsNamed) (hafter : FreshAfter py db r) : PublishesItsChange py db r := by
  intro c hc
  obtain ⟨credentials, request⟩ := r
  cases hc
  have hstep {db' : ManagementDb} (hperform : request.perform py db c = .ok db') :
      managementStep py db ⟨some c, request⟩ = some db' := by
    simp only [managementStep, hperform]
  -- Two fresh moments with the same versions.
  have hsame {db' : ManagementDb} (hperform : request.perform py db c = .ok db')
      (hversions : db'.versions = db.versions) :=
    (hfresh c.tenantId).same (hafter db' (hstep hperform) c.tenantId)
      (ManagementDb.loadPublished_congr hversions)
  split
  · rename_i ruleId hrequest
    cases hrequest
    intro rule hfound htenant hmay
    obtain rfl : rule.id = ruleId := (Table.find?_eq_some_iff.mp hfound).2
    obtain ⟨db', hshadow, hputs⟩ := moveToShadow_of_may hfound hmay
    have hperform : (ManagementRequest.lifecycle (.moveToShadow rule.id)).perform py db c =
        .ok db' :=
      bind_eq_ok.mpr ⟨(db', []), bind_eq_ok.mpr ⟨rule,
        ManagementDb.load_eq_ok_iff.mpr ⟨hfound, htenant⟩, bind_eq_ok.mpr ⟨_, hshadow, rfl⟩⟩, rfl⟩
    let shadowed : Rule := { rule with state := .shadow }
    have hold : db.rules.find? shadowed.id = some rule := hfound
    have hput : db'.rules.find? shadowed.id = some shadowed := by
      rw [hputs.rules, Table.find?_put_of_found hold, if_pos rfl]
    have hsnapshot := snapshot_same hold hput ⟨htenant, .inr rfl⟩ (hsame hperform hputs.versions).1
    exact (congrArg RuleSnapshot.state hsnapshot).symm
  · rename_i ruleId patch hrequest
    cases hrequest
    intro rule hfound htenant hmay hshadow hvalid hfree
    obtain rfl : rule.id = ruleId := (Table.find?_eq_some_iff.mp hfound).2
    by_cases hchange : (rule.edit patch).content = rule.content
    · unfold Rule.snapshot
      rw [hchange]
      rfl
    · obtain ⟨db', hedit, hputs⟩ := editDraft_of_may hmay (.inr hshadow) hvalid hfree hchange
      have hperform : (ManagementRequest.lifecycle (.editDraft rule.id patch)).perform py db c =
          .ok db' :=
        bind_eq_ok.mpr ⟨_, bind_eq_ok.mpr ⟨rule,
          ManagementDb.load_eq_ok_iff.mpr ⟨hfound, htenant⟩, bind_eq_ok.mpr ⟨_, hedit, rfl⟩⟩, rfl⟩
      have hold : db.rules.find? (rule.edit patch).id = some rule := hfound
      have hput : db'.rules.find? (rule.edit patch).id = some (rule.edit patch) := by
        rw [hputs.rules, Table.find?_put_of_found hold, if_pos rfl]
      exact snapshot_same hold hput ⟨htenant, .inr hshadow⟩ (hsame hperform hputs.versions).1
  · rename_i pk hrequest
    cases hrequest
    intro entry hfound htenant
    have hperform : (ManagementRequest.destroyList pk).perform py db c =
        .ok { db with lists := db.lists.erase entry.id } :=
      bind_eq_ok.mpr ⟨entry, loadList_eq_ok_iff.mpr ⟨hfound, htenant⟩, rfl⟩
    obtain ⟨hmem, -⟩ := Table.find?_eq_some_iff.mp hfound
    have hbefore : (db.namedLists c.tenantId).get? entry.name = some entry.values :=
      (ManagementDb.get?_namedLists_iff hnamed).mpr ⟨entry, hmem, htenant, rfl, rfl⟩
    rw [← (hsame hperform rfl).2] at hbefore
    -- What is left under the name is another list of the tenant with that name.
    obtain ⟨row, hrow, htenant', hname, -⟩ := ManagementDb.mem_of_get?_namedLists hbefore
    obtain ⟨hrow, hid⟩ := List.mem_filter.mp hrow
    cases hnamed row hrow entry hmem (htenant'.trans htenant.symm) hname
    simp at hid
  · trivial

/-- A version that is there stays, through a run. -/
theorem find?_versions_run {requests : List ApiRequest}
    (hrun : run (managementStep py) db requests = some db')
    (hfound : db.versions.find? k = some version) : db'.versions.find? k = some version := by
  refine run_invariant (fun u => u.versions.find? k = some version) ?_ hfound hrun
  intro u r u' hu hstep
  rcases managementStep_cases hstep with rfl | ⟨c, -, hperform⟩
  · exact hu
  · exact (perform_effect hperform).publishes.find?_versions hu

theorem listsNamed_step (hnamed : db.ListsNamed) (hstep : managementStep py db r = some db') :
    db'.ListsNamed := by
  rcases managementStep_cases hstep with rfl | ⟨c, -, hperform⟩
  · exact hnamed
  · exact (perform_effect hperform).listsNamed hnamed

theorem listsNamed_run {requests : List ApiRequest} (hnamed : db.ListsNamed)
    (hrun : run (managementStep py) db requests = some db') : db'.ListsNamed :=
  run_invariant ManagementDb.ListsNamed (fun _ _ _ => listsNamed_step) hnamed hrun

/-- Two fresh moments of a run with one newest version. -/
theorem same_control {requests : List ApiRequest} (hfresh : db.Fresh tenantId)
    (hfresh' : db'.Fresh tenantId) (hrun : run (managementStep py) db requests = some db')
    (hload : db.loadPublished tenantId = some version)
    (hload' : db'.loadPublished tenantId = some version')
    (hnumber : version'.version = version.version) :
    db'.publishedSnapshots tenantId = db.publishedSnapshots tenantId ∧
      db'.namedLists tenantId = db.namedLists tenantId := by
  obtain ⟨-, -, hfound⟩ := ManagementDb.loadPublished_eq_some hload
  obtain ⟨-, -, hfound'⟩ := ManagementDb.loadPublished_eq_some hload'
  have hkept := find?_versions_run hrun hfound
  rw [hnumber, hkept] at hfound'
  cases hfound'
  exact hfresh.same hfresh' (hload'.trans hload.symm)

/-- **The newest version.** In a run without reverts from a database in which every tenant's newest
version is fresh, it is so after every request, and two moments with one newest version have the
same control, exactly when every request that goes through publishes what it changes. -/
theorem fresh_run_iff {requests : List ApiRequest} (hfresh : ∀ tenantId, db.Fresh tenantId)
    (hnamed : db.ListsNamed) (hreverts : ∀ r ∈ requests, r.NoRevert) :
    (Along (managementStep py) (FreshAfter py) db requests ∧
      SameVersionSameControl py db requests) ↔
      Along (managementStep py) (PublishesItsChange py) db requests := by
  let Inv (u : ManagementDb) : Prop := (∀ tenantId, u.Fresh tenantId) ∧ u.ListsNamed
  have hkeep : ∀ u r u', Inv u → (r.NoRevert ∧ FreshAfter py u r) →
      managementStep py u r = some u' → Inv u' := by
    intro u r u' hu hguard hstep
    exact ⟨hguard.2 u' hstep, listsNamed_step hu.2 hstep⟩
  have hnoRevert : Along (managementStep py) (fun _ r => r.NoRevert) db requests :=
    along_of_forall fun r hr _ => hreverts r hr
  have hagree : ∀ u r, Inv u → ((r.NoRevert ∧ FreshAfter py u r) ↔
      (r.NoRevert ∧ PublishesItsChange py u r)) :=
    fun u r hu => and_congr_right fun hrevert =>
      ⟨publishesItsChange_of_fresh hu.1 hu.2, fresh_step hu.1 hrevert⟩
  have hiff : Along (managementStep py) (fun u r => r.NoRevert ∧ FreshAfter py u r) db requests ↔
      Along (managementStep py) (fun u r => r.NoRevert ∧ PublishesItsChange py u r) db requests :=
    along_congr hagree hkeep ⟨hfresh, hnamed⟩
  constructor
  · rintro ⟨hafter, -⟩
    exact (hiff.mp (hnoRevert.and hafter)).imp fun _ _ h => h.2
  · intro hguard
    have hafter := hiff.mpr (hnoRevert.and hguard)
    refine ⟨hafter.imp fun _ _ h => h.2, ?_⟩
    rintro pre mid post u u' tenantId version version' rfl hpre hmid hload hload' hnumber
    obtain ⟨hbefore, hlater⟩ := (along_append hpre).mp hafter
    have hu : Inv u := hbefore.invariant hkeep ⟨hfresh, hnamed⟩ hpre
    have hu' : Inv u' := ((along_append hmid).mp hlater).1.invariant hkeep hu hmid
    exact same_control (hu.1 tenantId) (hu'.1 tenantId) hmid hload hload' hnumber

end

theorem fresh_empty (tenantId : String) : ({} : ManagementDb).Fresh tenantId := ⟨rfl, rfl⟩

theorem listsNamed_empty : ({} : ManagementDb).ListsNamed := fun _ h => by cases h

/-! A rule is drafted, approved, put in force, and moved to shadow. -/

def publishPython : Python := .reading "amount_minor > 50"
  (.compare (.name "amount_minor") [(.gt, .constant (.int 50))])

def publishAnalyst : Credentials :=
  ⟨"tnt_1", "key_analyst", "live", ⟨"key_analyst", .complianceAnalyst, ""⟩⟩

def publishOfficer : Credentials :=
  ⟨"tnt_1", "key_officer", "live", ⟨"key_officer", .complianceOfficer, ""⟩⟩

def publishedDraft : RuleContent :=
  { name := "Limit", category := "kyc", expression := "amount_minor > 50", severity := "block" }

/-- An analyst's rule that an officer puts in force. -/
def putsInForce (ruleId : String) (content : RuleContent) : List ApiRequest :=
  [⟨some publishAnalyst, .lifecycle (.createDraft ruleId content)⟩,
    ⟨some publishOfficer, .lifecycle (.approve ruleId (.str "") 0)⟩,
    ⟨some publishOfficer, .lifecycle (.activate ruleId (.str "") 1)⟩]

def shadowing : ApiRequest := ⟨some publishAnalyst, .lifecycle (.moveToShadow "rul_1")⟩

theorem fresh_run_put_in_force :
    Along (managementStep publishPython) (FreshAfter publishPython) {}
      (putsInForce "rul_1" publishedDraft) := by
  have hguard : Along (managementStep publishPython) (PublishesItsChange publishPython) {}
      (putsInForce "rul_1" publishedDraft) :=
    along_of_forall fun r hr db c hc => by
      rcases List.mem_cons.mp hr with rfl | hr
      · trivial
      · rcases List.mem_cons.mp hr with rfl | hr
        · trivial
        · rw [List.mem_singleton.mp hr]
          trivial
  have hreverts : ∀ r ∈ putsInForce "rul_1" publishedDraft, r.NoRevert := by
    intro r hr toVersion hrequest
    rcases List.mem_cons.mp hr with rfl | hr
    · cases hrequest
    · rcases List.mem_cons.mp hr with rfl | hr
      · cases hrequest
      · rw [List.mem_singleton.mp hr] at hrequest
        cases hrequest
  exact ((fresh_run_iff fresh_empty listsNamed_empty hreverts).mpr hguard).1

theorem shadowed_rule_stale : ∃ db version,
    run (managementStep publishPython) {} (putsInForce "rul_1" publishedDraft ++ [shadowing]) =
      some db ∧
    db.loadPublished "tnt_1" = some version ∧
    version.rulesSnapshot.map (·.state) = [.active] ∧
    (db.publishedSnapshots "tnt_1").map (·.state) = [.shadow] := by
  have heval : ((run (managementStep publishPython) {}
      (putsInForce "rul_1" publishedDraft ++ [shadowing])).bind fun db =>
        (db.loadPublished "tnt_1").map fun version =>
          (version.rulesSnapshot.map (·.state), (db.publishedSnapshots "tnt_1").map (·.state))) =
      some ([.active], [.shadow]) := by
    decide +kernel
  obtain ⟨db, hdb, hversion⟩ := Option.bind_eq_some_iff.mp heval
  obtain ⟨version, hload, hpair⟩ := Option.map_eq_some_iff.mp hversion
  exact ⟨db, version, hdb, hload, congrArg Prod.fst hpair, congrArg Prod.snd hpair⟩

end ComplyLayer
