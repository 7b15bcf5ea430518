import ComplyLayer.Verify.Freshness

/-!
# Whether a worker can load what is published

The publisher validates the expression of a rule and nothing else of what a version holds: the
severity is free text and the values of a list are any JSON value. The worker validates the
expression again, converts the severity to one of three, and iterates over every list.
-/

namespace ComplyLayer

open Theory

/-- The entry and the rule a worker makes of it. -/
structure Compiles (py : Python) (entry : RuleSnapshot) (rule : CompiledRule) : Prop where
  id : rule.id = entry.id
  name : rule.name = entry.name
  tree : validateSource py entry.expression = .ok rule.tree
  severity : rule.severity.str = entry.severity
  state : rule.state = entry.state
  priority : rule.priority = entry.priority
  regulatoryReference : rule.regulatoryReference = entry.regulatoryReference
  customerMessage : rule.customerMessage = entry.customerMessage

/-- The version loads, and the rule set that comes of it has exactly its rules. -/
def LoadsWhole (py : Python) (version : RuleSetVersion) : Prop :=
  ∃ ruleset lists compiled,
    compileSnapshot py version.version version.rulesSnapshot = .ok ruleset ∧
    tupleLists version.listsSnapshot = .ok lists ∧ ruleset.version = version.version ∧
    ruleset.rules.Perm compiled ∧ List.Forall₂ (Compiles py) version.rulesSnapshot compiled

/-- Every severity is one of the three, and every list is a text, an array or an object. -/
def RuleSetVersion.Loadable (version : RuleSetVersion) : Prop :=
  (∀ entry ∈ version.rulesSnapshot, (Severity.ofStr? entry.severity).isSome) ∧
    ∀ entry ∈ version.listsSnapshot.entries, entry.2.tuple?.isSome

/-- The request gives only severities and list values that a worker can load. -/
def ManagementRequest.GivesLoadable : ManagementRequest → Prop
  | .lifecycle (.createDraft _ content) => (Severity.ofStr? content.severity).isSome
  | .lifecycle (.editDraft _ patch) =>
    ∀ severity, patch.severity = some severity → (Severity.ofStr? severity).isSome
  | .createList _ data | .updateList _ data | .partialUpdateList _ data =>
    ∀ values, data.get? "values" = some values → values.tuple?.isSome
  | _ => True

/-- `P` holds of the expression and severity of every rule, and `Q` of the values of every list,
those of the versions included. -/
structure ManagementDb.Holds (P : String → String → Prop) (Q : Value → Prop)
    (db : ManagementDb) : Prop where
  rules : ∀ row ∈ db.rules.rows, P row.content.expression row.content.severity
  lists : ∀ entry ∈ db.lists.rows, Q entry.values
  versions : ∀ version ∈ db.versions.rows,
    (∀ entry ∈ version.rulesSnapshot, P entry.expression entry.severity) ∧
      ∀ entry ∈ version.listsSnapshot.entries, Q entry.2

/-- The expression validates. -/
abbrev Valid (py : Python) (expression : String) : Prop :=
  ∃ tree, validateSource py expression = .ok tree

section
variable {py : Python} {db db' : ManagementDb} {c : Credentials} {request : ManagementRequest}
  {r : ApiRequest}

/-! ## What is kept of every rule and list -/

/-- What holds of the rules and lists after a request holds of what it publishes. -/
theorem ManagementDb.Holds.of_effect {P : String → String → Prop} {Q : Value → Prop}
    (h : db.Holds P Q) (heffect : ManagementEffect py db c request db')
    (hrules : ∀ row ∈ db'.rules.rows, P row.content.expression row.content.severity)
    (hlists : ∀ entry ∈ db'.lists.rows, Q entry.values) : db'.Holds P Q := by
  refine ⟨hrules, hlists, fun version hversion => ?_⟩
  -- A version of the table was there, or is the one the request adds.
  have hinserted {new : RuleSetVersion} (insert : db.versions.insert? new = some db'.versions)
      (hnew : (∀ entry ∈ new.rulesSnapshot, P entry.expression entry.severity) ∧
        ∀ entry ∈ new.listsSnapshot.entries, Q entry.2) :
      (∀ entry ∈ version.rulesSnapshot, P entry.expression entry.severity) ∧
        ∀ entry ∈ version.listsSnapshot.entries, Q entry.2 := by
    rw [(Table.insert?_eq_some_iff.mp insert).2] at hversion
    rcases List.mem_append.mp hversion with hold | hadded
    · exact h.versions version hold
    · rw [List.mem_singleton.mp hadded]
      exact hnew
  cases heffect.publishes with
  | nothing request versions =>
    rw [versions] at hversion
    exact h.versions version hversion
  | current request new insert tenant number current =>
    refine hinserted insert ⟨fun entry hentry => ?_, fun entry hentry => ?_⟩
    · rw [current.1] at hentry
      obtain ⟨row, hrow, -, rfl⟩ := ManagementDb.mem_publishedSnapshots_iff.mp hentry
      exact hrules row (Table.find?_eq_some_iff.mp hrow).1
    · rw [current.2] at hentry
      have hget := (Dict.get?_eq_some_iff _).mpr hentry
      obtain ⟨row, hrow, -, -, hvalues⟩ := ManagementDb.mem_of_get?_namedLists hget
      exact hvalues ▸ hlists row hrow
  | copy toVersion source new found insert tenant number rules lists sameRules sameLists =>
    have hsource := h.versions source (Table.find?_eq_some_iff.mp found).1
    exact hinserted insert ⟨rules ▸ hsource.1, lists ▸ hsource.2⟩

/-- What a draft gives and an edit keeps holds of every rule of the table. -/
theorem rules_hold {P : String → String → Prop} (heffect : ManagementEffect py db c request db')
    (h : ∀ row ∈ db.rules.rows, P row.content.expression row.content.severity)
    (hcreate : ∀ ruleId content, request = .lifecycle (.createDraft ruleId content) →
      P content.expression content.severity)
    (hedit : ∀ (rule : Rule) (patch : RulePatch), request = .lifecycle (.editDraft rule.id patch) →
      db.rules.find? rule.id = some rule → (rule.edit patch).content ≠ rule.content →
      P rule.content.expression rule.content.severity →
      P (patch.apply rule.content).expression (patch.apply rule.content).severity) :
    ∀ row ∈ db'.rules.rows, P row.content.expression row.content.severity := by
  have hfind {ruleId : String} (rule : Rule) (hrule : db.rules.find? ruleId = some rule) :
      P rule.content.expression rule.content.severity :=
    h rule (Table.find?_eq_some_iff.mp hrule).1
  intro row hmem
  have hrow := Table.find?_eq_some_iff.mpr ⟨hmem, rfl⟩
  rcases heffect.row hrow with hrow | ⟨op, hrequest, hchange⟩
  · exact hfind row hrow
  · generalize hfound : db.rules.find? row.id = found at hchange
    cases hchange with
    | kept row => exact hfind row hfound
    | created newId content hop =>
      cases hop
      exact hcreate newId content hrequest
    | edited rule patch hop tenant editable change =>
      cases hop
      exact hedit rule patch hrequest hfound change (hfind rule hfound)
    | approved rule reason now op tenant may notAuthor => exact hfind rule hfound
    | shadowed rule op tenant => exact hfind rule hfound
    | activated rule emergencyReason now op tenant approval => exact hfind rule hfound
    | archived rule reason op tenant => exact hfind rule hfound

/-! ## The expressions -/

theorem validateExpression_eq_ok (h : validateExpression py expression = .ok ()) :
    Valid py expression := by
  unfold validateExpression at h
  split at h
  · rename_i tree htree
    exact ⟨tree, htree⟩
  · cases h
  · cases h

/-- A draft that goes through was valid. -/
theorem draft_valid
    (h : (ManagementRequest.lifecycle (.createDraft ruleId content)).perform py db c = .ok db') :
    Valid py content.expression := by
  obtain ⟨⟨db₁, entries⟩, hperform, -⟩ := bind_eq_ok.mp h
  obtain ⟨⟨db₂, rule⟩, hcreate, -⟩ := bind_eq_ok.mp hperform
  rw [createDraft, seq_eq_ok, seq_eq_ok] at hcreate
  exact validateExpression_eq_ok hcreate.2.1

/-- The expression after an edit is the one before it, or one the edit validated. -/
theorem patch_valid {content : RuleContent} (hvalid : validatePatch py patch = .ok ())
    (hold : Valid py content.expression) : Valid py (patch.apply content).expression := by
  unfold validatePatch at hvalid
  unfold RulePatch.apply
  split at hvalid
  · rename_i expression hexpression
    rw [hexpression]
    exact validateExpression_eq_ok hvalid
  · rename_i hexpression
    rw [hexpression]
    exact hold

theorem valid_step (h : db.Holds (fun expression _ => Valid py expression) fun _ => True)
    (hstep : managementStep py db r = some db') :
    db'.Holds (fun expression _ => Valid py expression) fun _ => True := by
  rcases managementStep_cases hstep with rfl | ⟨c, -, hperform⟩
  · exact h
  · have heffect := perform_effect hperform
    refine h.of_effect heffect ?_ fun _ _ => trivial
    refine rules_hold (P := fun expression _ => Valid py expression) heffect h.rules ?_ ?_
    · intro ruleId content hrequest
      rw [hrequest] at hperform
      exact draft_valid hperform
    · intro rule patch hrequest hfound hchange hold
      rw [hrequest] at hperform
      exact patch_valid (edit_valid hperform hfound hchange).1 hold

/-! ## The severities and the lists -/

/-- The values of a list after a request that gives loadable ones. -/
theorem listValues_loadable
    (hgives : ∀ values, data.get? "values" = some values → values.tuple?.isSome)
    (hcurrent : current.tuple?.isSome) (h : listValues data current = .ok values) :
    values.tuple?.isSome := by
  unfold listValues at h
  split at h
  · cases h
  · rename_i values' hvalues
    cases h
    exact hgives values hvalues
  · cases h
    exact hcurrent

theorem lists_loadable (heffect : ManagementEffect py db c request db')
    (hgives : request.GivesLoadable) (h : ∀ entry ∈ db.lists.rows, entry.values.tuple?.isSome) :
    ∀ entry ∈ db'.lists.rows, entry.values.tuple?.isSome := by
  cases heffect with
  | lifecycle op entries effect keys => exact effect.lists ▸ h
  | listCreated listId data name values named valued free insert publishes =>
    rw [publishes.lists, (Table.insert?_eq_some_iff.mp insert).2]
    intro row hrow
    rcases List.mem_append.mp hrow with hrow | hrow
    · exact h row hrow
    · rw [List.mem_singleton.mp hrow]
      exact listValues_loadable hgives rfl valued
  | listUpdated request data entry nameOf name values updates found tenant named valued free
      publishes =>
    rw [publishes.lists]
    intro row hrow
    rcases Table.mem_rows_put.mp hrow with ⟨rfl, -⟩ | ⟨hrow, -⟩
    · have hold := h entry (Table.find?_eq_some_iff.mp found).1
      refine listValues_loadable ?_ hold valued
      unfold ManagementRequest.updates? at updates
      split at updates <;> cases updates
      · exact hgives
      · exact hgives
    · exact h row hrow
  | listDestroyed entry found tenant rules versions keys lists =>
    rw [lists]
    intro row hrow
    exact h row (List.mem_filter.mp hrow).1
  | keyIssued drawn data key may issuable tenant creator unrevoked same insert =>
    exact same.lists ▸ h
  | keyRevoked key reason now may found tenant unrevoked same keys => exact same.lists ▸ h
  | quiet request silent same keys => exact same.lists ▸ h

theorem loadable_step (hgives : r.request.GivesLoadable)
    (h : db.Holds (fun _ severity => (Severity.ofStr? severity).isSome) (·.tuple?.isSome))
    (hstep : managementStep py db r = some db') :
    db'.Holds (fun _ severity => (Severity.ofStr? severity).isSome) (·.tuple?.isSome) := by
  rcases managementStep_cases hstep with rfl | ⟨c, -, hperform⟩
  · exact h
  · have heffect := perform_effect hperform
    refine h.of_effect heffect ?_ (lists_loadable heffect hgives h.lists)
    refine rules_hold (P := fun _ severity => (Severity.ofStr? severity).isSome) heffect h.rules
      ?_ ?_
    · intro ruleId content hrequest
      rw [hrequest] at hgives
      exact hgives
    · intro rule patch hrequest hfound hchange hold
      rw [hrequest] at hgives
      unfold RulePatch.apply
      cases hseverity : patch.severity with
      | none => exact hold
      | some severity => exact hgives severity hseverity

theorem holds_empty : ({} : ManagementDb).Holds P Q := by
  constructor
  · intro row hrow
    cases hrow
  · intro entry hentry
    cases hentry
  · intro version hversion
    cases hversion

/-! ## Loading -/

/-- An entry whose expression validates compiles exactly when its severity is one of the three. -/
theorem compileEntry_eq_ok_iff (htree : validateSource py entry.expression = .ok tree) :
    (∃ rule, compileEntry py version entry = .ok rule) ↔
      (Severity.ofStr? entry.severity).isSome := by
  unfold compileEntry
  rw [htree]
  cases Severity.ofStr? entry.severity with
  | none => simp
  | some severity => simp

theorem compileEntry_compiles (h : compileEntry py version entry = .ok rule) :
    Compiles py entry rule := by
  unfold compileEntry at h
  split at h
  · cases h
  · cases h
  · cases h
  · rename_i tree severity htree hseverity
    cases h
    exact ⟨rfl, rfl, htree, Severity.ofStr?_eq_some_iff.mp hseverity, rfl, rfl, rfl, rfl⟩

theorem tupleLists_eq_ok_iff {lists : Dict String Value} :
    (∃ tuples, tupleLists lists = .ok tuples) ↔ ∀ entry ∈ lists.entries, entry.2.tuple?.isSome := by
  simp only [tupleLists, bind_eq_ok, pure_eq_ok]
  rw [exists_comm]
  simp only [exists_and_left, exists_eq', and_true, exists_mapM_ok_iff]
  refine forall₂_congr ?_
  rintro ⟨name, values⟩ -
  cases values.tuple? <;> simp

/-- A version whose expressions validate loads exactly when the rest of it does. -/
theorem loadsWhole_iff {version : RuleSetVersion}
    (htrees : ∀ entry ∈ version.rulesSnapshot, Valid py entry.expression) :
    LoadsWhole py version ↔ version.Loadable := by
  constructor
  · rintro ⟨ruleset, lists, compiled, hrules, hlists, -⟩
    refine ⟨fun entry hentry => ?_, tupleLists_eq_ok_iff.mp ⟨lists, hlists⟩⟩
    obtain ⟨rules, hrules, -⟩ := bind_eq_ok.mp hrules
    obtain ⟨rule, hrule⟩ := exists_mapM_ok_iff.mp ⟨rules, hrules⟩ entry hentry
    obtain ⟨tree, htree⟩ := htrees entry hentry
    exact (compileEntry_eq_ok_iff htree).mp ⟨rule, hrule⟩
  · rintro ⟨hseverities, hlists⟩
    obtain ⟨lists, hlists⟩ := tupleLists_eq_ok_iff.mpr hlists
    have hentries : ∀ entry ∈ version.rulesSnapshot,
        ∃ rule, compileEntry py version.version entry = .ok rule := by
      intro entry hentry
      obtain ⟨tree, htree⟩ := htrees entry hentry
      exact (compileEntry_eq_ok_iff htree).mpr (hseverities entry hentry)
    obtain ⟨compiled, hcompiled⟩ := exists_mapM_ok_iff.mpr hentries
    refine ⟨.ofRules version.version compiled, lists, compiled,
      bind_eq_ok.mpr ⟨compiled, hcompiled, rfl⟩, hlists, rfl, perm_sortBy _ _, ?_⟩
    exact (mapM_eq_ok_iff.mp hcompiled).imp fun _ _ => compileEntry_compiles

theorem mem_versions_of_loadPublished (h : db.loadPublished tenantId = some version) :
    version ∈ db.versions.rows :=
  (Table.find?_eq_some_iff.mp h).1

/-- **What management publishes.** In every run of management requests, the newest version of a
tenant loads, into a rule set with exactly its rules, exactly when every severity in it is one of
the three and every list in it can be iterated over; in a run of requests that give nothing else it
always loads. -/
theorem published_loads_iff {requests : List ApiRequest}
    (hrun : run (managementStep py) {} requests = some db) :
    ((∀ r ∈ requests, r.request.GivesLoadable) → ∀ tenantId version,
      db.loadPublished tenantId = some version → LoadsWhole py version) ∧
    ∀ tenantId version, db.loadPublished tenantId = some version →
      (LoadsWhole py version ↔ version.Loadable) := by
  have hvalid := run_invariant _ (fun _ _ _ => valid_step) holds_empty hrun
  have hiff : ∀ tenantId version, db.loadPublished tenantId = some version →
      (LoadsWhole py version ↔ version.Loadable) := by
    intro tenantId version hload
    exact loadsWhole_iff (hvalid.versions version (mem_versions_of_loadPublished hload)).1
  refine ⟨fun hgives tenantId version hload => (hiff tenantId version hload).mpr ?_, hiff⟩
  have hguard : Along (managementStep py) (fun _ r => r.request.GivesLoadable) {} requests :=
    along_of_forall fun r hr _ => hgives r hr
  have hloadable := hguard.invariant (fun _ _ _ h hgive => loadable_step hgive h) holds_empty hrun
  exact hloadable.versions version (mem_versions_of_loadPublished hload)

end

theorem published_loads_put_in_force : ∃ db,
    run (managementStep publishPython) {} (putsInForce "rul_1" publishedDraft) = some db ∧
    ∀ tenantId version, db.loadPublished tenantId = some version →
      LoadsWhole publishPython version := by
  have hsome : (run (managementStep publishPython) {}
      (putsInForce "rul_1" publishedDraft)).isSome := by
    decide +kernel
  obtain ⟨db, hrun⟩ := Option.isSome_iff_exists.mp hsome
  refine ⟨db, hrun, (published_loads_iff hrun).1 ?_⟩
  intro r hr
  rcases List.mem_cons.mp hr with rfl | hr
  · rfl
  · rcases List.mem_cons.mp hr with rfl | hr
    · trivial
    · rw [List.mem_singleton.mp hr]
      trivial

/-- A draft of a severity that is none of the three. -/
def criticalDraft : RuleContent := { publishedDraft with severity := "critical" }

theorem critical_rule_unloadable : ∃ db version,
    run (managementStep publishPython) {} (putsInForce "rul_1" criticalDraft) = some db ∧
    db.loadPublished "tnt_1" = some version ∧ ¬ LoadsWhole publishPython version := by
  have heval : ((run (managementStep publishPython) {} (putsInForce "rul_1" criticalDraft)).bind
      fun db => (db.loadPublished "tnt_1").map fun version =>
        version.rulesSnapshot.map (·.severity)) = some ["critical"] := by
    decide +kernel
  obtain ⟨db, hrun, hversion⟩ := Option.bind_eq_some_iff.mp heval
  obtain ⟨version, hload, hseverities⟩ := Option.map_eq_some_iff.mp hversion
  refine ⟨db, version, hrun, hload, ?_⟩
  rintro ⟨ruleset, lists, compiled, -, -, -, -, hcompiled⟩
  obtain ⟨entry, hentry, hseverity⟩ := List.mem_map.mp (hseverities ▸ List.mem_singleton_self _)
  obtain ⟨rule, hrule⟩ : ∃ rule, Compiles publishPython entry rule := by
    obtain ⟨i, hi, rfl⟩ := List.getElem_of_mem hentry
    exact ⟨_, hcompiled.get hi (hcompiled.length_eq ▸ hi)⟩
  have hnone : ∀ severity : Severity, severity.str ≠ "critical" := by
    intro severity
    cases severity <;> decide
  exact hnone rule.severity (hrule.severity.trans hseverity)

end ComplyLayer
