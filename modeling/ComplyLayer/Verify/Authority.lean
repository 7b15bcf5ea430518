import ComplyLayer.Rules.Transitions

/-!
# Who takes a rule out of force

A rule in force leaves it, or changes, by a step of someone who may archive, activate or revert:
except that `move_to_shadow` looks at no state, so that whoever may shadow a draft may take a rule
out of force with it. The next version published, by anybody, no longer has the rule active.
-/

namespace ComplyLayer

open Theory

/-- The rule is in force, with the content it has here. -/
def ManagementDb.InForce (db : ManagementDb) (rule : Rule) : Prop :=
  ∃ row, db.rules.find? rule.id = some row ∧ row.state = .active ∧ row.content = rule.content ∧
    row.tenantId = rule.tenantId

/-- The rule is in force before and, with that content, no longer after. -/
def Disturbs (db db' : ManagementDb) (rule : Rule) : Prop := db.InForce rule ∧ ¬ db'.InForce rule

/-- Whoever disturbs a rule in force holds one of the permissions over it. -/
def Authorised (py : Python) (w : Trail) (s : LifecycleStep) : Prop :=
  ∀ w' rule, lifecycleStep py w s = some w' → Disturbs w.db w'.db rule → s.actor.role.Controls

/-- Whoever moves a rule in force to shadow holds one of the permissions over it. -/
def ShadowsWithAuthority (w : Trail) (s : LifecycleStep) : Prop :=
  ∀ rule, s.op = .moveToShadow rule.id → w.db.rules.find? rule.id = some rule →
    rule.tenantId = s.tenantId → rule.state = .active → may s.actor.role .shadow →
      s.actor.role.Controls

/-- Nobody who holds the permissions disturbs the rule in this step. -/
def LeftInForce (py : Python) (rule : Rule) (w : Trail) (s : LifecycleStep) : Prop :=
  s.actor.role.Controls → ∀ w', lifecycleStep py w s = some w' → ¬ Disturbs w.db w'.db rule

/-- A version that a run publishes, other than a copy of an older one, has a rule as it was put in
force, unless someone who holds the permissions has disturbed it. -/
def PublishedInForce (py : Python) (w : Trail) (steps : List LifecycleStep) : Prop :=
  ∀ pre mid s post v u w' rule version, steps = pre ++ (mid ++ s :: post) →
    run (lifecycleStep py) w pre = some v → run (lifecycleStep py) v mid = some u →
    lifecycleStep py u s = some w' → v.db.rules.find? rule.id = some rule →
    rule.state = .active → Along (lifecycleStep py) (LeftInForce py rule) v (mid ++ [s]) →
    (∀ n, s.op ≠ .revert n) → version ∈ w'.db.versions.rows → version ∉ u.db.versions.rows →
    version.tenantId = rule.tenantId →
      ∀ entry, (entry ∈ version.rulesSnapshot ∧ entry.id = rule.id) ↔ entry = rule.snapshot

section
variable {py : Python} {w w' : Trail} {s : LifecycleStep} {db db' : ManagementDb} {rule : Rule}

theorem ManagementDb.InForce.of_eq (h : db.InForce rule) (hrules : db'.rules = db.rules) :
    db'.InForce rule := by
  obtain ⟨row, hfound, h⟩ := h
  exact ⟨row, hrules ▸ hfound, h⟩

/-- Writing a row over another one, or over one that it keeps in force. -/
theorem ManagementDb.InForce.of_put {old row : Rule} (h : db.InForce rule)
    (hrules : db'.rules = db.rules.put row) (hfound : db.rules.find? row.id = some old)
    (hrow : row.id = rule.id → old.state = .active →
      row.state = .active ∧ row.content = old.content ∧ row.tenantId = old.tenantId) :
    db'.InForce rule := by
  obtain ⟨r, hr, hactive, hcontent, htenant⟩ := h
  by_cases hid : rule.id = row.id
  · rw [hid, hfound] at hr
    cases hr
    obtain ⟨hactive', hcontent', htenant'⟩ := hrow hid.symm hactive
    refine ⟨row, ?_, hactive', hcontent'.trans hcontent, htenant'.trans htenant⟩
    rw [hrules, Table.find?_put_of_found hfound, if_pos hid]
  · refine ⟨r, ?_, hactive, hcontent, htenant⟩
    rw [hrules, Table.find?_put_of_found hfound, if_neg hid]
    exact hr

/-- A step that disturbs a rule archives it or moves it to shadow. -/
theorem disturbs_cases (hstep : lifecycleStep py w s = some w') (h : Disturbs w.db w'.db rule) :
    may s.actor.role .archive ∨
      (s.op = .moveToShadow rule.id ∧ may s.actor.role .shadow ∧ ∃ row,
        w.db.rules.find? rule.id = some row ∧ row.tenantId = s.tenantId ∧ row.state = .active) := by
  obtain ⟨hforce, hnot⟩ := h
  cases lifecycleStep_effect hstep with
  | quiet same => exact absurd (hforce.of_eq same.rules) hnot
  | created ruleId content op may insert versions lists =>
    obtain ⟨row, hfound, hrow⟩ := hforce
    refine absurd ⟨row, ?_, hrow⟩ hnot
    rw [Table.find?_insert? insert, if_neg]
    · exact hfound
    · -- The id of a new rule is not taken.
      rintro hid
      have hnew := Table.find?_eq_none_iff.mpr (Table.insert?_eq_some_iff.mp insert).1
      rw [hid, hfound] at hnew
      cases hnew
  | edited r patch op may found tenant editable change puts =>
    refine absurd (hforce.of_put puts.rules found fun _ hactive => ?_) hnot
    rcases editable with h | h <;> rw [hactive] at h <;> cases h
  | approved r reason now op may found tenant notAuthor puts =>
    exact absurd (hforce.of_put puts.rules found fun _ hactive => ⟨hactive, rfl, rfl⟩) hnot
  | shadowed r op may found tenant puts =>
    by_cases hid : r.id = rule.id
    · obtain ⟨row, hfound, hactive, -⟩ := hforce
      rw [← hid, found] at hfound
      cases hfound
      exact .inr ⟨hid ▸ op, may, r, hid ▸ found, tenant, hactive⟩
    · exact absurd (hforce.of_put puts.rules found fun h => absurd h hid) hnot
  | activated r emergencyReason now op may found tenant approval puts =>
    exact absurd (hforce.of_put puts.rules found fun _ _ => ⟨rfl, rfl, rfl⟩) hnot
  | archived r reason op may found tenant puts => exact .inl may
  | reverted toVersion source op may found rules lists versions =>
    exact absurd (hforce.of_eq rules) hnot

/-- `move_to_shadow` disturbs the rule in force it is called on. -/
theorem disturbs_moveToShadow (py : Python) (hop : s.op = .moveToShadow rule.id)
    (hfound : w.db.rules.find? rule.id = some rule) (htenant : rule.tenantId = s.tenantId)
    (hactive : rule.state = .active) (hmay : may s.actor.role .shadow) :
    ∃ w', lifecycleStep py w s = some w' ∧ Disturbs w.db w'.db rule := by
  obtain ⟨tenantId, actor, op⟩ := s
  cases hop
  obtain ⟨db', hshadow, hputs⟩ := moveToShadow_of_may hfound hmay
  have hperform : (⟨tenantId, actor, .moveToShadow rule.id⟩ : LifecycleStep).perform py w.db =
      .ok (db', []) :=
    bind_eq_ok.mpr ⟨rule, ManagementDb.load_eq_ok_iff.mpr ⟨hfound, htenant⟩,
      bind_eq_ok.mpr ⟨_, hshadow, rfl⟩⟩
  refine ⟨⟨db', w.history ++ []⟩, by rw [lifecycleStep, hperform], ?_⟩
  refine ⟨⟨rule, hfound, hactive, rfl, rfl⟩, ?_⟩
  rintro ⟨row, hrow, hstate, -⟩
  let shadowed : Rule := { rule with state := .shadow }
  have hold : w.db.rules.find? shadowed.id = some rule := hfound
  have hput := Table.find?_put_of_found hold rule.id
  rw [if_pos rfl, ← hputs.rules] at hput
  have hrow' : shadowed = row := Option.some.inj (hput.symm.trans hrow)
  rw [← hrow'] at hstate
  cases hstate

theorem authorised_iff : Authorised py w s ↔ ShadowsWithAuthority w s := by
  constructor
  · intro h rule hop hfound htenant hactive hmay
    obtain ⟨w', hstep, hdisturbs⟩ := disturbs_moveToShadow py hop hfound htenant hactive hmay
    exact h w' rule hstep hdisturbs
  · intro h w' rule hstep hdisturbs
    rcases disturbs_cases hstep hdisturbs with harchive | ⟨hop, hmay, row, hfound, htenant, hactive⟩
    · exact .inl harchive
    · have hid : row.id = rule.id := (Table.find?_eq_some_iff.mp hfound).2
      exact h row (hid ▸ hop) (hid ▸ hfound) htenant hactive hmay

/-- Steps of which the authorised ones leave the rule alone keep it in force. -/
theorem inForce_run (hauthorised : Along (lifecycleStep py) (Authorised py) w steps)
    (hleft : Along (lifecycleStep py) (LeftInForce py rule) w steps)
    (hrun : run (lifecycleStep py) w steps = some w') (hforce : w.db.InForce rule) :
    w'.db.InForce rule := by
  have hkeep : ∀ t a t', t.db.InForce rule →
      (Authorised py t a ∧ LeftInForce py rule t a) → lifecycleStep py t a = some t' →
        t'.db.InForce rule := by
    rintro t a t' ht ⟨hauthorised, hleft⟩ hstep
    by_contra hnot
    have hdisturbs : Disturbs t.db t'.db rule := ⟨ht, hnot⟩
    exact hleft (hauthorised t' rule hstep hdisturbs) t' hstep hdisturbs
  have hforce' := Along.invariant hkeep (hauthorised.and hleft) hforce hrun
  exact hforce'

/-- The entry of a rule in force in what is published. -/
theorem mem_published_iff (hforce : db.InForce rule) (hactive : rule.state = .active)
    (entry : RuleSnapshot) :
    (entry ∈ (db.publishedRules rule.tenantId).map Rule.snapshot ∧ entry.id = rule.id) ↔
      entry = rule.snapshot := by
  obtain ⟨row, hfound, hstate, hcontent, htenant⟩ := hforce
  have hid : row.id = rule.id := (Table.find?_eq_some_iff.mp hfound).2
  have hsnapshot : row.snapshot = rule.snapshot := by
    rw [Rule.snapshot, Rule.snapshot, hid, hcontent, hstate, hactive]
  constructor
  · rintro ⟨hmem, hentry⟩
    obtain ⟨r, hr, rfl⟩ := List.mem_map.mp hmem
    have hrows : r ∈ db.rules.rows := (List.mem_filter.mp (mem_sortBy.mp hr)).1
    have hr' := Table.find?_eq_some_iff.mpr ⟨hrows, hentry⟩
    rw [hfound] at hr'
    cases hr'
    exact hsnapshot
  · rintro rfl
    have hrow : row ∈ db.publishedRules rule.tenantId := by
      refine mem_sortBy.mpr (List.mem_filter.mpr ⟨(Table.find?_eq_some_iff.mp hfound).1, ?_⟩)
      simp [htenant, hstate]
    exact ⟨List.mem_map.mpr ⟨row, hrow, hsnapshot⟩, rfl⟩

/-- **Taking a rule out of force.** In a run, every step that disturbs a rule in force is by someone
who may archive, activate or revert exactly when every `move_to_shadow` of a rule in force is; and
then a rule that nobody with those permissions disturbs is in every version published later as it
was put in force. -/
theorem authorised_run_iff (steps : List LifecycleStep) :
    (Along (lifecycleStep py) (Authorised py) w steps ∧ PublishedInForce py w steps) ↔
      Along (lifecycleStep py) ShadowsWithAuthority w steps := by
  constructor
  · rintro ⟨hauthorised, -⟩
    exact hauthorised.imp fun _ _ => authorised_iff.mp
  · intro hshadows
    have hauthorised : Along (lifecycleStep py) (Authorised py) w steps :=
      hshadows.imp fun _ _ => authorised_iff.mpr
    refine ⟨hauthorised, ?_⟩
    rintro pre mid s post v u w' rule version rfl hpre hmid hstep hfound hactive hleft hrevert
      hnew hold htenant entry
    have hmids : Along (lifecycleStep py) (Authorised py) v (mid ++ [s]) := by
      have hlater := ((along_append hpre).mp hauthorised).2
      rw [List.append_cons] at hlater
      exact ((along_append (run_concat_eq_some.mpr ⟨u, hmid, hstep⟩)).mp hlater).1
    have hforce : w'.db.InForce rule := inForce_run hmids hleft
      (run_concat_eq_some.mpr ⟨u, hmid, hstep⟩) ⟨rule, hfound, hactive, rfl, rfl⟩
    rw [(lifecycleStep_publishes hstep hrevert hnew hold).1, htenant]
    exact mem_published_iff hforce hactive entry

end

/-! An analyst moves a rule in force to shadow. -/

def rulePython : Python := .reading "amount_minor > 50"
  (.compare (.name "amount_minor") [(.gt, .constant (.int 50))])

def ruleAnalyst : Actor := ⟨"usr_analyst", .complianceAnalyst, ""⟩

def ruleOfficer : Actor := ⟨"usr_officer", .complianceOfficer, ""⟩

/-- An analyst's rule, which an officer approves and puts in force. -/
def activatedRule : List LifecycleStep :=
  [⟨"tnt_1", ruleAnalyst, .createDraft "rul_1"
      { name := "Limit", category := "kyc", expression := "amount_minor > 50", severity := "block" }⟩,
    ⟨"tnt_1", ruleOfficer, .approve "rul_1" (.str "") 0⟩,
    ⟨"tnt_1", ruleOfficer, .activate "rul_1" (.str "") 1⟩]

theorem analyst_disturbs :
    ∃ w w' rule, run (lifecycleStep rulePython) {} activatedRule = some w ∧
      lifecycleStep rulePython w ⟨"tnt_1", ruleAnalyst, .moveToShadow "rul_1"⟩ = some w' ∧
      w.db.rules.find? "rul_1" = some rule ∧ Disturbs w.db w'.db rule ∧
      ¬ ruleAnalyst.role.Controls := by
  refine ⟨_, _, _, rfl, rfl, rfl, ⟨⟨_, rfl, rfl, rfl, rfl⟩, ?_⟩, by decide⟩
  rintro ⟨row, hrow, hstate, -⟩
  cases hrow
  cases hstate

end ComplyLayer
