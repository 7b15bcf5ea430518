import ComplyLayer.Api.Effects
import ComplyLayer.Engine.Cache

/-!
# What is published

The rules and lists a version would hold now, as they depend on the rows, and the newest version,
as it depends on the versions.
-/

namespace ComplyLayer

open Theory

/-- The row is one that a version of the tenant holds. -/
def Rule.PublishedFor (tenantId : String) (row : Rule) : Prop :=
  row.tenantId = tenantId ∧ (row.state = .active ∨ row.state = .shadow)

instance (tenantId : String) (row : Rule) : Decidable (row.PublishedFor tenantId) :=
  inferInstanceAs (Decidable (_ ∧ _))

namespace ManagementDb

/-- The entries of a version published now. -/
def publishedSnapshots (db : ManagementDb) (tenantId : String) : List RuleSnapshot :=
  (db.publishedRules tenantId).map Rule.snapshot

/-- No two lists of a tenant share a name. -/
def ListsNamed (db : ManagementDb) : Prop :=
  ∀ row ∈ db.lists.rows, ∀ row' ∈ db.lists.rows, row.tenantId = row'.tenantId →
    row.name = row'.name → row = row'

/-- A version holds the rules and the lists as they are. -/
def Current (db : ManagementDb) (tenantId : String) (version : RuleSetVersion) : Prop :=
  version.rulesSnapshot = db.publishedSnapshots tenantId ∧
    version.listsSnapshot = db.namedLists tenantId

section
variable {db db' : ManagementDb} {row old : Rule} {version : RuleSetVersion}

/-! ## Rules -/

theorem publishedSnapshots_eq (db : ManagementDb) (tenantId : String) :
    db.publishedSnapshots tenantId =
      sortBy (fun entry : RuleSnapshot => toLex (entry.priority, entry.id))
        ((db.rules.rows.filter fun row => row.PublishedFor tenantId).map Rule.snapshot) :=
  map_sortBy Rule.snapshot (fun row => toLex (row.content.priority, row.id))
    (fun entry => toLex (entry.priority, entry.id)) (fun _ => rfl) _

theorem publishedSnapshots_congr (h : db'.rules = db.rules) :
    db'.publishedSnapshots tenantId = db.publishedSnapshots tenantId := by
  rw [publishedSnapshots_eq, publishedSnapshots_eq, h]

theorem mem_publishedSnapshots_iff : entry ∈ db.publishedSnapshots tenantId ↔
    ∃ row, db.rules.find? row.id = some row ∧ row.PublishedFor tenantId ∧
      row.snapshot = entry := by
  rw [publishedSnapshots_eq, mem_sortBy, List.mem_map]
  refine exists_congr fun row => ?_
  rw [List.mem_filter, Table.find?_eq_some_iff, decide_eq_true_iff]
  exact ⟨fun ⟨⟨hmem, hpublished⟩, hentry⟩ => ⟨⟨hmem, rfl⟩, hpublished, hentry⟩,
    fun ⟨⟨hmem, _⟩, hpublished, hentry⟩ => ⟨⟨hmem, hpublished⟩, hentry⟩⟩

/-- Putting a row that says of itself what the old one said. -/
theorem publishedSnapshots_put (hrules : db'.rules = db.rules.put row)
    (hfound : db.rules.find? row.id = some old)
    (hpublished : old.PublishedFor tenantId ↔ row.PublishedFor tenantId)
    (hsnapshot : row.PublishedFor tenantId → row.snapshot = old.snapshot) :
    db'.publishedSnapshots tenantId = db.publishedSnapshots tenantId := by
  have hold : ∀ r ∈ db.rules.rows, r.id = row.id → r = old := by
    intro r hr hid
    have hr := Table.find?_eq_some_iff.mpr ⟨hr, hid⟩
    exact Option.some.inj (hr.symm.trans hfound)
  rw [publishedSnapshots_eq, publishedSnapshots_eq, hrules]
  refine congrArg _ (Table.map_filter_rows_put (fun r hr hid => ?_) fun r hr hid hrow => ?_)
  · rw [hold r hr hid]
    exact decide_eq_decide.mpr hpublished
  · rw [hold r hr hid]
    exact (hsnapshot (by simpa using hrow)).symm

/-- Putting the row of another tenant. -/
theorem publishedSnapshots_put_of_tenant (hrules : db'.rules = db.rules.put row)
    (hfound : db.rules.find? row.id = some old) (htenant : row.tenantId = old.tenantId)
    (hother : row.tenantId ≠ tenantId) :
    db'.publishedSnapshots tenantId = db.publishedSnapshots tenantId :=
  publishedSnapshots_put hrules hfound
    ⟨fun h => absurd (htenant.trans h.1) hother, fun h => absurd h.1 hother⟩
    fun h => absurd h.1 hother

theorem publishedSnapshots_insert (h : db.rules.insert? row = some db'.rules)
    (hnot : ¬ row.PublishedFor tenantId) :
    db'.publishedSnapshots tenantId = db.publishedSnapshots tenantId := by
  rw [publishedSnapshots_eq, publishedSnapshots_eq, (Table.insert?_eq_some_iff.mp h).2,
    List.filter_append, List.filter_cons_of_neg (by simpa using hnot), List.filter_nil,
    List.append_nil]

/-! ## Lists -/

theorem namedLists_of_filter
    (h : (db'.lists.rows.filter (·.tenantId = tenantId)) =
      db.lists.rows.filter (·.tenantId = tenantId)) :
    db'.namedLists tenantId = db.namedLists tenantId := by
  rw [namedLists, namedLists, h]

theorem namedLists_put_of_tenant {entry old : NamedList} (hlists : db'.lists = db.lists.put entry)
    (hfound : db.lists.find? entry.id = some old) (htenant : entry.tenantId = old.tenantId)
    (hother : entry.tenantId ≠ tenantId) : db'.namedLists tenantId = db.namedLists tenantId := by
  refine namedLists_of_filter ?_
  rw [hlists]
  refine Table.filter_rows_put (by simpa using hother) fun r hr hid => ?_
  have hr := Table.find?_eq_some_iff.mpr ⟨hr, hid⟩
  cases hr.symm.trans hfound
  rw [← htenant]
  simpa using hother

theorem namedLists_insert_of_tenant {entry : NamedList}
    (h : db.lists.insert? entry = some db'.lists) (hother : entry.tenantId ≠ tenantId) :
    db'.namedLists tenantId = db.namedLists tenantId := by
  refine namedLists_of_filter ?_
  rw [(Table.insert?_eq_some_iff.mp h).2, List.filter_append,
    List.filter_cons_of_neg (by simpa using hother), List.filter_nil, List.append_nil]

theorem mem_of_get?_namedLists (h : (db.namedLists tenantId).get? name = some values) :
    ∃ row ∈ db.lists.rows, row.tenantId = tenantId ∧ row.name = name ∧ row.values = values := by
  obtain ⟨row, hrow, heq⟩ := List.mem_map.mp (Dict.mem_of_get?_ofList h)
  obtain ⟨hmem, htenant⟩ := List.mem_filter.mp (mem_sortBy.mp hrow)
  cases heq
  exact ⟨row, hmem, by simpa using htenant, rfl, rfl⟩

/-- The values under a name are those of the one list of that name. -/
theorem get?_namedLists_iff (hnamed : db.ListsNamed) :
    (db.namedLists tenantId).get? name = some values ↔
      ∃ row ∈ db.lists.rows, row.tenantId = tenantId ∧ row.name = name ∧ row.values = values := by
  refine ⟨mem_of_get?_namedLists, ?_⟩
  rintro ⟨row, hmem, htenant, rfl, rfl⟩
  have hkey : row.name ∈ ((sortBy NamedList.name (db.lists.rows.filter
      (·.tenantId = tenantId))).map fun entry => (entry.name, entry.values)).map Prod.fst := by
    rw [List.map_map]
    refine List.mem_map_of_mem (mem_sortBy.mpr (List.mem_filter.mpr ⟨hmem, ?_⟩))
    simpa using htenant
  obtain ⟨values, hvalues⟩ := Option.isSome_iff_exists.mp (Dict.isSome_get?_update (d := ∅) hkey)
  obtain ⟨row', hmem', htenant', hname, hvalues'⟩ := mem_of_get?_namedLists hvalues
  have hrow := hnamed row' hmem' row hmem (htenant'.trans htenant.symm) hname
  rw [← hrow, hvalues', hrow]
  exact hvalues

/-! ## Versions -/

/-- The newest number after a version of this number is added. -/
theorem latestVersion_insert (h : db.versions.insert? version = some db'.versions) :
    db'.latestVersion tenantId =
      if version.tenantId = tenantId then max (db.latestVersion tenantId) version.version
      else db.latestVersion tenantId := by
  have hfold (l : List Nat) (n : Nat) : (l ++ [n]).foldr max 0 = max (l.foldr max 0) n := by
    induction l with
    | nil => simp
    | cons m l ih => rw [List.cons_append, List.foldr_cons, ih, List.foldr_cons, max_assoc]
  rw [latestVersion, latestVersion, (Table.insert?_eq_some_iff.mp h).2, List.filter_append,
    List.map_append]
  split
  · rename_i htenant
    rw [List.filter_cons_of_pos (by simpa using htenant), List.filter_nil, List.map_singleton,
      hfold]
  · rename_i htenant
    rw [List.filter_cons_of_neg (by simpa using htenant), List.filter_nil, List.map_nil,
      List.append_nil]

theorem loadPublished_congr (h : db'.versions = db.versions) :
    db'.loadPublished tenantId = db.loadPublished tenantId := by
  rw [loadPublished, loadPublished, latestVersion, latestVersion, h]

/-- A new version is the newest of its tenant. -/
theorem loadPublished_insert (h : db.versions.insert? version = some db'.versions)
    (hnumber : version.version = db.latestVersion version.tenantId + 1) (tenantId : String) :
    db'.loadPublished tenantId =
      if version.tenantId = tenantId then some version else db.loadPublished tenantId := by
  rw [loadPublished, latestVersion_insert h, Table.find?_insert? h]
  split
  · rename_i htenant
    rw [if_pos]
    rw [← htenant, hnumber, max_eq_right (Nat.le_succ _)]
    exact Prod.ext rfl hnumber
  · rename_i htenant
    rw [if_neg fun hkey => htenant (congrArg Prod.fst hkey)]
    rfl

/-- The rows as they are become the newest version. -/
theorem current_of_publication {mid : ManagementDb}
    (hinsert : db.versions.insert? (mid.publication tenantId publisher) = some db'.versions)
    (hversions : mid.versions = db.versions) (hrules : db'.rules = mid.rules)
    (hlists : db'.lists = mid.lists) :
    ∃ newest, db'.loadPublished tenantId = some newest ∧ db'.Current tenantId newest := by
  have hnumber : (mid.publication tenantId publisher).version = db.latestVersion tenantId + 1 := by
    rw [publication, latestVersion, latestVersion, hversions]
  have hload := (loadPublished_insert hinsert hnumber tenantId).trans (if_pos rfl)
  exact ⟨_, hload, (publishedSnapshots_congr hrules).symm, (namedLists_congr hlists).symm⟩

/-- The newest version is the one with the newest number. -/
theorem loadPublished_eq_some (h : db.loadPublished tenantId = some version) :
    version.tenantId = tenantId ∧ version.version = db.latestVersion tenantId ∧
      db.versions.find? (tenantId, version.version) = some version := by
  have hkey : version.perTenant = (tenantId, db.latestVersion tenantId) :=
    (Table.find?_eq_some_iff.mp h).2
  have hnumber : version.version = db.latestVersion tenantId := congrArg Prod.snd hkey
  exact ⟨congrArg Prod.fst hkey, hnumber, hnumber ▸ h⟩

end

end ManagementDb

/-! ## What a request publishes -/

/-- What a request does to the versions of its tenant. -/
inductive Publishes (db db' : ManagementDb) (tenantId : String) : ManagementRequest → Prop
  | nothing (request : ManagementRequest) (versions : db'.versions = db.versions) :
      Publishes db db' tenantId request
  | current (request : ManagementRequest) (version : RuleSetVersion)
      (insert : db.versions.insert? version = some db'.versions)
      (tenant : version.tenantId = tenantId)
      (number : version.version = db.latestVersion tenantId + 1)
      (current : db'.Current tenantId version) : Publishes db db' tenantId request
  | copy (toVersion : Nat) (source version : RuleSetVersion)
      (found : db.versions.find? (tenantId, toVersion) = some source)
      (insert : db.versions.insert? version = some db'.versions)
      (tenant : version.tenantId = tenantId)
      (number : version.version = db.latestVersion tenantId + 1)
      (rules : version.rulesSnapshot = source.rulesSnapshot)
      (lists : version.listsSnapshot = source.listsSnapshot) (sameRules : db'.rules = db.rules)
      (sameLists : db'.lists = db.lists) :
      Publishes db db' tenantId (.lifecycle (.revert toVersion))

section
variable {py : Python} {db db' : ManagementDb} {c : Credentials} {request : ManagementRequest}

theorem ManagementDb.PutsAndPublishes.publishes {row : Rule}
    (h : db.PutsAndPublishes db' row publisher) (htenant : row.tenantId = tenantId) :
    Publishes db db' tenantId request := by
  subst htenant
  exact .current request _ h.versions rfl rfl ⟨(publishedSnapshots_congr h.rules).symm,
    (namedLists_congr h.lists).symm⟩

theorem ManagementDb.PublishesLists.publishes {after : Table NamedList.id}
    (h : db.PublishesLists db' after tenantId publisher) :
    Publishes db db' tenantId request :=
  .current request _ h.versions rfl rfl ⟨(publishedSnapshots_congr h.rules).symm,
    (namedLists_congr h.lists).symm⟩

theorem ManagementEffect.publishes (h : ManagementEffect py db c request db') :
    Publishes db db' c.tenantId request := by
  cases h with
  | lifecycle op entries effect keys =>
    cases effect with
    | quiet same => exact .nothing _ same.versions
    | created ruleId content op may insert versions lists => exact .nothing _ versions
    | edited rule patch op may found tenant editable change puts => exact .nothing _ puts.versions
    | approved rule reason now op may found tenant notAuthor puts => exact .nothing _ puts.versions
    | shadowed rule op may found tenant puts => exact .nothing _ puts.versions
    | activated rule emergencyReason now op may found tenant approval puts =>
      exact puts.publishes tenant
    | archived rule reason op may found tenant puts => exact puts.publishes tenant
    | reverted toVersion source op may found rules lists versions =>
      cases op
      have htenant : source.tenantId = c.tenantId :=
        congrArg Prod.fst (Table.find?_eq_some_iff.mp found).2
      exact .copy toVersion source _ found versions htenant rfl rfl rfl rules lists
  | listCreated listId data name values named valued free insert publishes =>
    exact publishes.publishes
  | listUpdated request data entry nameOf name values updates found tenant named valued free
      publishes =>
    exact publishes.publishes
  | listDestroyed entry found tenant rules versions keys lists => exact .nothing _ versions
  | keyIssued drawn data key may issuable tenant creator unrevoked same insert =>
    exact .nothing _ same.versions
  | keyRevoked key reason now may found tenant unrevoked same keys =>
    exact .nothing _ same.versions
  | quiet request silent same keys => exact .nothing _ same.versions

/-- The newest version of each tenant after a request. -/
theorem Publishes.loadPublished (h : Publishes db db' tenantId request) (other : String) :
    (db'.loadPublished other = db.loadPublished other ∧
      (other = tenantId → db'.versions = db.versions)) ∨
      other = tenantId ∧ ∃ version, db'.loadPublished tenantId = some version ∧
        version.version = db.latestVersion tenantId + 1 ∧
        (db'.Current tenantId version ∨ ∃ toVersion source,
          request = .lifecycle (.revert toVersion) ∧
          db.versions.find? (tenantId, toVersion) = some source ∧
          version.rulesSnapshot = source.rulesSnapshot ∧
          version.listsSnapshot = source.listsSnapshot) := by
  have hinserted {version : RuleSetVersion}
      (insert : db.versions.insert? version = some db'.versions)
      (tenant : version.tenantId = tenantId)
      (number : version.version = db.latestVersion tenantId + 1) :
      db'.loadPublished other = if tenantId = other then some version
        else db.loadPublished other := by
    subst tenant
    exact ManagementDb.loadPublished_insert insert number other
  by_cases hother : tenantId = other
  · subst hother
    cases h with
    | nothing request versions =>
      exact .inl ⟨ManagementDb.loadPublished_congr versions, fun _ => versions⟩
    | current request version insert tenant number current =>
      have hload := hinserted insert tenant number
      rw [if_pos rfl] at hload
      exact .inr ⟨rfl, version, hload, number, .inl current⟩
    | copy toVersion source version found insert tenant number rules lists sameRules sameLists =>
      have hload := hinserted insert tenant number
      rw [if_pos rfl] at hload
      exact .inr ⟨rfl, version, hload, number, .inr ⟨toVersion, source, rfl, found, rules, lists⟩⟩
  · refine .inl ⟨?_, fun h => absurd h.symm hother⟩
    cases h with
    | nothing request versions => exact ManagementDb.loadPublished_congr versions
    | current request version insert tenant number current =>
      rw [hinserted insert tenant number, if_neg hother]
    | copy toVersion source version found insert tenant number rules lists sameRules sameLists =>
      rw [hinserted insert tenant number, if_neg hother]

/-- A version that is there stays. -/
theorem Publishes.find?_versions (h : Publishes db db' tenantId request)
    (hfound : db.versions.find? k = some version) : db'.versions.find? k = some version := by
  have hinsert {new : RuleSetVersion} (hnew : db.versions.insert? new = some db'.versions) :
      db'.versions.find? k = some version := by
    rw [Table.find?_insert? hnew, if_neg]
    · exact hfound
    · rintro rfl
      have hfree := Table.find?_eq_none_iff.mpr (Table.insert?_eq_some_iff.mp hnew).1
      rw [hfound] at hfree
      cases hfree
  cases h with
  | nothing request versions => exact versions ▸ hfound
  | current request version insert tenant number current => exact hinsert insert
  | copy toVersion source version found insert tenant number rules lists sameRules sameLists =>
    exact hinsert insert

/-- The lists of a tenant keep distinct names. -/
theorem ManagementEffect.listsNamed (h : ManagementEffect py db c request db')
    (hnamed : db.ListsNamed) : db'.ListsNamed := by
  have hsame (hlists : db'.lists = db.lists) : db'.ListsNamed := by
    unfold ManagementDb.ListsNamed
    rw [hlists]
    exact hnamed
  cases h with
  | lifecycle op entries effect keys => exact hsame effect.lists
  | listCreated listId data name values named valued free insert publishes =>
    intro row hrow row' hrow' htenant hname
    rw [publishes.lists, (Table.insert?_eq_some_iff.mp insert).2] at hrow hrow'
    rcases List.mem_append.mp hrow with h | h <;> rcases List.mem_append.mp hrow' with h' | h'
    · exact hnamed row h row' h' htenant hname
    · cases List.mem_singleton.mp h'
      exact absurd hname (free row h htenant)
    · cases List.mem_singleton.mp h
      exact absurd hname.symm (free row' h' htenant.symm)
    · rw [List.mem_singleton.mp h, List.mem_singleton.mp h']
  | listUpdated request data entry nameOf name values updates found tenant named valued free
      publishes =>
    intro row hrow row' hrow' htenant hname
    rw [publishes.lists] at hrow hrow'
    rcases Table.mem_rows_put.mp hrow with ⟨rfl, -⟩ | ⟨h, hid⟩ <;>
      rcases Table.mem_rows_put.mp hrow' with ⟨rfl, -⟩ | ⟨h', hid'⟩
    · rfl
    · exact absurd hname.symm (free row' h' hid' (htenant.symm.trans tenant))
    · exact absurd hname (free row h hid (htenant.trans tenant))
    · exact hnamed row h row' h' htenant hname
  | listDestroyed entry found tenant rules versions keys lists =>
    intro row hrow row' hrow' htenant hname
    rw [lists] at hrow hrow'
    exact hnamed row (List.mem_filter.mp hrow).1 row' (List.mem_filter.mp hrow').1 htenant hname
  | keyIssued drawn data key may issuable tenant creator unrevoked same insert =>
    exact hsame same.lists
  | keyRevoked key reason now may found tenant unrevoked same keys => exact hsame same.lists
  | quiet request silent same keys => exact hsame same.lists

/-- What a tenant has in force and listed is no business of another's requests. -/
theorem ManagementEffect.other_tenant (h : ManagementEffect py db c request db')
    (hother : c.tenantId ≠ tenantId) :
    db'.publishedSnapshots tenantId = db.publishedSnapshots tenantId ∧
      db'.namedLists tenantId = db.namedLists tenantId := by
  have hput {rule row : Rule} (hrules : db'.rules = db.rules.put row)
      (hfound : db.rules.find? row.id = some rule) (hsame : row.tenantId = rule.tenantId)
      (htenant : rule.tenantId = c.tenantId) (hlists : db'.lists = db.lists) :
      db'.publishedSnapshots tenantId = db.publishedSnapshots tenantId ∧
        db'.namedLists tenantId = db.namedLists tenantId :=
    ⟨ManagementDb.publishedSnapshots_put_of_tenant hrules hfound hsame
      (hsame.trans htenant ▸ hother), ManagementDb.namedLists_congr hlists⟩
  have hkept (hrules : db'.rules = db.rules) (hlists : db'.lists = db.lists) :
      db'.publishedSnapshots tenantId = db.publishedSnapshots tenantId ∧
        db'.namedLists tenantId = db.namedLists tenantId :=
    ⟨ManagementDb.publishedSnapshots_congr hrules, ManagementDb.namedLists_congr hlists⟩
  cases h with
  | lifecycle op entries effect keys =>
    cases effect with
    | quiet same => exact hkept same.rules same.lists
    | created ruleId content op may insert versions lists =>
      exact ⟨ManagementDb.publishedSnapshots_insert insert fun h => hother h.1,
        ManagementDb.namedLists_congr lists⟩
    | edited rule patch op may found tenant editable change puts =>
      exact hput puts.rules found rfl tenant puts.lists
    | approved rule reason now op may found tenant notAuthor puts =>
      exact hput puts.rules found rfl tenant puts.lists
    | shadowed rule op may found tenant puts => exact hput puts.rules found rfl tenant puts.lists
    | activated rule emergencyReason now op may found tenant approval puts =>
      exact hput puts.rules found rfl tenant puts.lists
    | archived rule reason op may found tenant puts =>
      exact hput puts.rules found rfl tenant puts.lists
    | reverted toVersion source op may found rules lists versions => exact hkept rules lists
  | listCreated listId data name values named valued free insert publishes =>
    exact ⟨ManagementDb.publishedSnapshots_congr publishes.rules,
      ManagementDb.namedLists_insert_of_tenant (publishes.lists ▸ insert) hother⟩
  | listUpdated request data entry nameOf name values updates found tenant named valued free
      publishes =>
    have hold : db.lists.find? ({ entry with
        name := name
        values := values
        updatedBy := c.actor.id } : NamedList).id = some entry := found
    exact ⟨ManagementDb.publishedSnapshots_congr publishes.rules,
      ManagementDb.namedLists_put_of_tenant publishes.lists hold rfl (tenant ▸ hother)⟩
  | listDestroyed entry found tenant rules versions keys lists =>
    refine ⟨ManagementDb.publishedSnapshots_congr rules, ManagementDb.namedLists_of_filter ?_⟩
    rw [lists]
    refine List.filter_filter.trans (List.filter_congr fun row hrow => ?_)
    by_cases hid : row.id = entry.id
    · have hrow := Table.find?_eq_some_iff.mpr ⟨hrow, hid⟩
      cases hrow.symm.trans found
      simp [tenant, hother]
    · simp [hid]
  | keyIssued drawn data key may issuable tenant creator unrevoked same insert =>
    exact hkept same.rules same.lists
  | keyRevoked key reason now may found tenant unrevoked same keys =>
    exact hkept same.rules same.lists
  | quiet request silent same keys => exact hkept same.rules same.lists

end

end ComplyLayer
