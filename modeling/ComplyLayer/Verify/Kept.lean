import ComplyLayer.Verify.Freshness

/-!
# What a run of requests keeps

Rules stay, with their tenant and their creator, and a version number of a rule stands for one
content. Published versions stay as they are, and those of a tenant are numbered without a gap.
Keys stay, with all that was issued, and a revoked key is never used again.
-/

namespace ComplyLayer

open Theory

/-- What stays of a rule. -/
structure RuleKept (rule rule' : Rule) : Prop where
  id : rule'.id = rule.id
  tenant : rule'.tenantId = rule.tenantId
  creator : rule'.createdBy = rule.createdBy
  version : rule.version ≤ rule'.version
  content : rule'.version = rule.version → rule'.content = rule.content

/-- What stays of a key. -/
structure KeyKept (key key' : ApiKey) : Prop where
  issued : { key' with revokedAt := none } = { key with revokedAt := none }
  revoked : key.revokedAt.isSome → key' = key

structure ManagementDb.Keeps (db db' : ManagementDb) : Prop where
  rules : ∀ ruleId rule, db.rules.find? ruleId = some rule →
    ∃ rule', db'.rules.find? ruleId = some rule' ∧ RuleKept rule rule'
  versions : db.versions.rows <+: db'.versions.rows
  keys : ∀ keyId key, db.keys.find? keyId = some key →
    ∃ key', db'.keys.find? keyId = some key' ∧ KeyKept key key'

/-- The versions of a tenant are numbered from 1 on. -/
def ManagementDb.Sequential (db : ManagementDb) (tenantId : String) : Prop :=
  (db.versions.rows.filter (·.tenantId = tenantId)).map (·.version) =
    List.range' 1 (db.latestVersion tenantId)

theorem RuleKept.refl (rule : Rule) : RuleKept rule rule := ⟨rfl, rfl, rfl, le_rfl, fun _ => rfl⟩

theorem RuleKept.trans {rule rule' rule'' : Rule} (h : RuleKept rule rule')
    (h' : RuleKept rule' rule'') : RuleKept rule rule'' where
  id := h'.id.trans h.id
  tenant := h'.tenant.trans h.tenant
  creator := h'.creator.trans h.creator
  version := h.version.trans h'.version
  content hsame := by
    have hmid : rule'.version = rule.version := by
      have := h.version
      have := h'.version
      omega
    exact (h'.content (hsame.trans hmid.symm)).trans (h.content hmid)

theorem KeyKept.refl (key : ApiKey) : KeyKept key key := ⟨rfl, fun _ => rfl⟩

theorem KeyKept.trans {key key' key'' : ApiKey} (h : KeyKept key key') (h' : KeyKept key' key'') :
    KeyKept key key'' where
  issued := h'.issued.trans h.issued
  revoked hrevoked := by
    have hmid := h.revoked hrevoked
    subst hmid
    exact h'.revoked hrevoked

theorem ManagementDb.Keeps.refl (db : ManagementDb) : db.Keeps db where
  rules _ rule h := ⟨rule, h, .refl rule⟩
  versions := List.prefix_rfl
  keys _ key h := ⟨key, h, .refl key⟩

theorem ManagementDb.Keeps.trans {db db' db'' : ManagementDb} (h : db.Keeps db')
    (h' : db'.Keeps db'') : db.Keeps db'' where
  rules ruleId rule hrule := by
    obtain ⟨rule', hrule', hkept⟩ := h.rules ruleId rule hrule
    obtain ⟨rule'', hrule'', hkept'⟩ := h'.rules ruleId rule' hrule'
    exact ⟨rule'', hrule'', hkept.trans hkept'⟩
  versions := h.versions.trans h'.versions
  keys keyId key hkey := by
    obtain ⟨key', hkey', hkept⟩ := h.keys keyId key hkey
    obtain ⟨key'', hkey'', hkept'⟩ := h'.keys keyId key' hkey'
    exact ⟨key'', hkey'', hkept.trans hkept'⟩

/-! ## One request -/

/-- The row of a rule after a lifecycle operation. -/
theorem RowEffect.kept_of_some {s : LifecycleStep} {rule rule' : Rule}
    (h : RowEffect s (some rule) rule') : RuleKept rule rule' := by
  cases h with
  | kept => exact .refl _
  | edited rule patch op tenant editable change =>
    exact ⟨rfl, rfl, rfl, Nat.le_succ _, fun hsame => absurd hsame (Nat.succ_ne_self _)⟩
  | approved => exact ⟨rfl, rfl, rfl, le_rfl, fun _ => rfl⟩
  | shadowed => exact ⟨rfl, rfl, rfl, le_rfl, fun _ => rfl⟩
  | activated => exact ⟨rfl, rfl, rfl, le_rfl, fun _ => rfl⟩
  | archived => exact ⟨rfl, rfl, rfl, le_rfl, fun _ => rfl⟩

/-- No lifecycle operation deletes a rule. -/
theorem LifecycleEffect.found_of_found {w w' : Trail} {s : LifecycleStep}
    (h : LifecycleEffect w s w') (hfound : (w.db.rules.find? ruleId).isSome) :
    (w'.db.rules.find? ruleId).isSome := by
  have hput {db : ManagementDb} {row old : Rule} (hold : w.db.rules.find? row.id = some old)
      (hrules : db.rules = w.db.rules.put row) : (db.rules.find? ruleId).isSome := by
    rw [hrules, Table.find?_put_of_found hold]
    split
    · rfl
    · exact hfound
  cases h with
  | quiet same =>
    rw [same.rules]
    exact hfound
  | created newId content op may insert versions lists =>
    rw [Table.find?_insert? insert]
    split
    · rfl
    · exact hfound
  | edited rule patch op may found tenant editable change puts =>
    have hold : w.db.rules.find? (rule.edit patch).id = some rule := found
    exact hput hold puts.rules
  | approved rule reason now op may found tenant notAuthor puts =>
    let row : Rule := { rule with approvedBy := s.actor.id, approvedAt := some now }
    have hold : w.db.rules.find? row.id = some rule := found
    exact hput hold puts.rules
  | shadowed rule op may found tenant puts =>
    let row : Rule := { rule with state := .shadow }
    have hold : w.db.rules.find? row.id = some rule := found
    exact hput hold puts.rules
  | activated rule emergencyReason now op may found tenant approval puts =>
    let row : Rule := { rule with state := .active, activatedAt := some now }
    have hold : w.db.rules.find? row.id = some rule := found
    exact hput hold puts.rules
  | archived rule reason op may found tenant puts =>
    let row : Rule := { rule with state := .archived }
    have hold : w.db.rules.find? row.id = some rule := found
    exact hput hold puts.rules
  | reverted toVersion source op may found rules lists versions =>
    rw [rules]
    exact hfound

section
variable {py : Python} {db db' : ManagementDb} {c : Credentials} {request : ManagementRequest}

theorem ManagementEffect.keeps_rules (h : ManagementEffect py db c request db')
    (hrule : db.rules.find? ruleId = some rule) :
    ∃ rule', db'.rules.find? ruleId = some rule' ∧ RuleKept rule rule' := by
  have hsame (hrules : db'.rules = db.rules) :
      ∃ rule', db'.rules.find? ruleId = some rule' ∧ RuleKept rule rule' := by
    rw [hrules]
    exact ⟨rule, hrule, .refl rule⟩
  cases h with
  | lifecycle op entries effect keys =>
    have hfound := effect.found_of_found (Option.isSome_of_eq_some hrule)
    obtain ⟨rule', hrule'⟩ := Option.isSome_iff_exists.mp hfound
    have hrow := effect.row hrule'
    rw [hrule] at hrow
    exact ⟨rule', hrule', hrow.kept_of_some⟩
  | listCreated listId data name values named valued free insert publishes =>
    exact hsame publishes.rules
  | listUpdated request data entry nameOf name values updates found tenant named valued free
      publishes =>
    exact hsame publishes.rules
  | listDestroyed entry found tenant rules versions keys lists => exact hsame rules
  | keyIssued drawn data key may issuable tenant creator unrevoked same insert =>
    exact hsame same.rules
  | keyRevoked key reason now may found tenant unrevoked same keys => exact hsame same.rules
  | quiet request silent same keys => exact hsame same.rules

theorem ManagementEffect.keeps_keys (h : ManagementEffect py db c request db')
    (hkey : db.keys.find? keyId = some key) :
    ∃ key', db'.keys.find? keyId = some key' ∧ KeyKept key key' := by
  have hsame (hkeys : db'.keys = db.keys) :
      ∃ key', db'.keys.find? keyId = some key' ∧ KeyKept key key' := by
    rw [hkeys]
    exact ⟨key, hkey, .refl key⟩
  cases h with
  | lifecycle op entries effect keys => exact hsame keys
  | listCreated listId data name values named valued free insert publishes =>
    exact hsame publishes.keys
  | listUpdated request data entry nameOf name values updates found tenant named valued free
      publishes =>
    exact hsame publishes.keys
  | listDestroyed entry found tenant rules versions keys lists => exact hsame keys
  | keyIssued drawn data issued may issuable tenant creator unrevoked same insert =>
    exact ⟨key, Table.find?_insert?_of_some insert hkey, .refl key⟩
  | keyRevoked revoked reason now may found tenant unrevoked same keys =>
    have hold : db.keys.find? ({ revoked with revokedAt := some now } : ApiKey).id =
        some revoked := found
    rw [keys, Table.find?_put_of_found hold]
    split
    case isTrue hid =>
      have hsame : key = revoked := by
        rw [hid] at hkey
        exact Option.some.inj (hkey.symm.trans hold)
      subst hsame
      refine ⟨_, rfl, rfl, fun hrevoked => ?_⟩
      rw [unrevoked] at hrevoked
      cases hrevoked
    case isFalse => exact ⟨key, hkey, .refl key⟩
  | quiet request silent same keys => exact hsame keys

/-- The versions after a request: the same, or one more, with the next number of its tenant. -/
theorem Publishes.versions (h : Publishes db db' tenantId request) :
    db'.versions = db.versions ∨ ∃ version, db.versions.insert? version = some db'.versions ∧
      version.version = db.latestVersion version.tenantId + 1 := by
  cases h with
  | nothing request versions => exact .inl versions
  | current request version insert tenant number current =>
    exact .inr ⟨version, insert, tenant ▸ number⟩
  | copy toVersion source version found insert tenant number rules lists sameRules sameLists =>
    exact .inr ⟨version, insert, tenant ▸ number⟩

theorem sequential_insert {version : RuleSetVersion} (h : ∀ tenantId, db.Sequential tenantId)
    (hinsert : db.versions.insert? version = some db'.versions)
    (hnumber : version.version = db.latestVersion version.tenantId + 1) (tenantId : String) :
    db'.Sequential tenantId := by
  have hbefore := h tenantId
  rw [ManagementDb.Sequential] at hbefore ⊢
  rw [ManagementDb.latestVersion_insert hinsert, (Table.insert?_eq_some_iff.mp hinsert).2,
    List.filter_append, List.map_append, hbefore]
  by_cases htenant : version.tenantId = tenantId
  · subst htenant
    rw [if_pos rfl, hnumber, max_eq_right (Nat.le_succ _), List.range'_1_concat,
      List.filter_cons_of_pos (by simp), List.filter_nil, List.map_singleton, hnumber,
      Nat.add_comm 1]
  · rw [if_neg htenant, List.filter_cons_of_neg (by simpa using htenant), List.filter_nil,
      List.map_nil, List.append_nil]

theorem ManagementEffect.keeps (h : ManagementEffect py db c request db') : db.Keeps db' where
  rules _ _ hrule := h.keeps_rules hrule
  versions := by
    obtain hsame | ⟨version, hinsert, -⟩ := h.publishes.versions
    · exact hsame ▸ List.prefix_rfl
    · rw [(Table.insert?_eq_some_iff.mp hinsert).2]
      exact List.prefix_append _ _
  keys _ _ hkey := h.keeps_keys hkey

/-! ## A run -/

theorem keeps_run {requests : List ApiRequest}
    (hrun : run (managementStep py) db requests = some db') : db.Keeps db' := by
  refine run_invariant (fun u => db.Keeps u) ?_ (.refl db) hrun
  intro u r u' hu hstep
  obtain rfl | ⟨c, -, hperform⟩ := managementStep_cases hstep
  · exact hu
  · exact hu.trans (perform_effect hperform).keeps

theorem sequential_run {requests : List ApiRequest} (h : ∀ tenantId, db.Sequential tenantId)
    (hrun : run (managementStep py) db requests = some db') (tenantId : String) :
    db'.Sequential tenantId := by
  refine run_invariant (fun u => ∀ tenantId, u.Sequential tenantId) ?_ h hrun tenantId
  intro u r u' hu hstep
  obtain rfl | ⟨c, -, hperform⟩ := managementStep_cases hstep
  · exact hu
  · obtain hsame | ⟨version, hinsert, hnumber⟩ := (perform_effect hperform).publishes.versions
    · intro tenantId
      rw [ManagementDb.Sequential, ManagementDb.latestVersion, hsame]
      exact hu tenantId
    · exact sequential_insert hu hinsert hnumber

theorem history_is_kept {earlier later : List ApiRequest}
    (hearlier : run (managementStep py) {} earlier = some db)
    (hlater : run (managementStep py) db later = some db') :
    db.Keeps db' ∧ ∀ tenantId, db.Sequential tenantId ∧ db'.Sequential tenantId := by
  have hempty : ∀ tenantId, ({} : ManagementDb).Sequential tenantId := fun _ => rfl
  have hnumbered := sequential_run hempty hearlier
  exact ⟨keeps_run hlater, fun tenantId => ⟨hnumbered tenantId, sequential_run hnumbered hlater _⟩⟩

end

/-- A rule is put in force, and then moved to shadow. -/
theorem history_is_kept_shadowed : ∃ db db',
    run (managementStep publishPython) {} (putsInForce "rul_1" publishedDraft) = some db ∧
    run (managementStep publishPython) db [shadowing] = some db' ∧ db.Keeps db' := by
  have hsome : ((run (managementStep publishPython) {} (putsInForce "rul_1" publishedDraft)).bind
      fun db => run (managementStep publishPython) db [shadowing]).isSome := by
    decide +kernel
  obtain ⟨db', hdb'⟩ := Option.isSome_iff_exists.mp hsome
  obtain ⟨db, hdb, hlater⟩ := Option.bind_eq_some_iff.mp hdb'
  exact ⟨db, db', hdb, hlater, (history_is_kept hdb hlater).1⟩

end ComplyLayer
