import ComplyLayer.Rules.Transitions

/-!
# Four eyes

A rule in force without an emergency was approved, after its last edit, by someone else. `approve`
compares the actor with the creator alone, so this holds of the runs in which nobody approves a
rule they have edited.
-/

namespace ComplyLayer

open Theory

/-- The entry says who wrote some of the rule's content: its creation or an edit. -/
def Entry.Authors (e : Entry) (ruleId : String) : Prop := e.rule.id = ruleId ∧ e.act ≠ .approved

/-- The rule's content was approved as it is, nothing has been written to it since, and the approver
wrote none of it. -/
def FourEyes (history : List Entry) (ruleId : String) (content : RuleContent) : Prop :=
  ∃ before entry after, history = before ++ entry :: after ∧ entry.act = .approved ∧
    entry.rule.id = ruleId ∧ entry.rule.content = content ∧
    (∀ e ∈ after, ¬ e.Authors ruleId) ∧
    ∀ e ∈ history, e.Authors ruleId → e.actor.id ≠ entry.actor.id

/-- An approval that goes through is by an actor who has not edited the rule. -/
def NoEditorApproves (w : Trail) (s : LifecycleStep) : Prop :=
  ∀ rule reason now, s.op = .approve rule.id reason now → w.db.rules.find? rule.id = some rule →
    may s.actor.role .approve → s.actor.id ≠ rule.createdBy →
    ∀ e ∈ w.history, e.rule.id = rule.id → e.act = .edited → e.actor.id ≠ s.actor.id

/-- What the history says of the rules. -/
structure TrailInvariant (w : Trail) : Prop where
  known : ∀ e ∈ w.history, (w.db.rules.find? e.rule.id).isSome
  creator : ∀ e ∈ w.history, e.act = .created → ∀ row, w.db.rules.find? e.rule.id = some row →
    e.actor.id = row.createdBy
  approved : ∀ ruleId row, w.db.rules.find? ruleId = some row → row.approvedBy ≠ "" →
    FourEyes w.history ruleId row.content

section
variable {w w' : Trail} {s : LifecycleStep} {history : List Entry}

theorem FourEyes.append (h : FourEyes history ruleId content) (he : ¬ e.Authors ruleId) :
    FourEyes (history ++ [e]) ruleId content := by
  obtain ⟨before, entry, after, rfl, hact, hid, hcontent, hafter, hothers⟩ := h
  refine ⟨before, entry, after ++ [e], by simp, hact, hid, hcontent, ?_, ?_⟩
  · intro e' he'
    rcases List.mem_append.mp he' with h | h
    · exact hafter e' h
    · rwa [List.mem_singleton.mp h]
  · intro e' he' hauthors
    rcases List.mem_append.mp he' with h | h
    · exact hothers e' h hauthors
    · rw [List.mem_singleton.mp h] at hauthors
      exact absurd hauthors he

/-- What the history says of one rule. -/
def SaidOf (history : List Entry) (row : Rule) : Prop :=
  (∀ e ∈ history, e.rule.id = row.id → e.act = .created → e.actor.id = row.createdBy) ∧
    (row.approvedBy ≠ "" → FourEyes history row.id row.content)

theorem TrailInvariant.rows (h : TrailInvariant w) : w.Rows SaidOf := fun row hrow =>
  ⟨fun e he hid hact => h.creator e he hact row (hid ▸ hrow), h.approved row.id row hrow⟩

theorem trailInvariant_of_rows (hknown : w.Known) (hrows : w.Rows SaidOf) : TrailInvariant w where
  known := hknown
  creator e he hact row hrow := by
    have hid : row.id = e.rule.id := (Table.find?_eq_some_iff.mp hrow).2
    exact (hrows row (hid ▸ hrow)).1 e he hid.symm hact
  approved ruleId row hrow happroved := by
    have hid : row.id = ruleId := (Table.find?_eq_some_iff.mp hrow).2
    exact hid ▸ (hrows row (hid ▸ hrow)).2 happroved

/-- The history says the same of who created a rule when an entry of another kind is added. -/
theorem creator_append {row : Rule} {new : Entry}
    (h : ∀ e ∈ history, e.rule.id = row.id → e.act = .created → e.actor.id = row.createdBy)
    (hnew : new.rule.id = row.id → new.act = .created → new.actor.id = row.createdBy) :
    ∀ e ∈ history ++ [new], e.rule.id = row.id → e.act = .created →
      e.actor.id = row.createdBy := by
  intro e he hid hact
  rcases List.mem_append.mp he with hmem | hmem
  · exact h e hmem hid hact
  · cases List.mem_singleton.mp hmem
    exact hnew hid hact

theorem trailInvariant_step {py : Python} (h : TrailInvariant w) (hguard : NoEditorApproves w s)
    (hstep : lifecycleStep py w s = some w') : TrailInvariant w' := by
  have heffect := lifecycleStep_effect hstep
  refine trailInvariant_of_rows (Trail.Known.step h.known heffect)
    (h.rows.step heffect (fun row e hne hsaid => ?_) (fun row state activatedAt hsaid => hsaid)
      (fun ruleId content hnew => ?_) (fun rule patch found hsaid => ?_)
      fun rule reason now op may found notAuthor hsaid => ?_)
  · refine ⟨creator_append hsaid.1 fun hid => absurd hid hne, fun happroved => ?_⟩
    exact (hsaid.2 happroved).append fun hauthors => hne hauthors.1
  · -- A rule is created once: no earlier entry is about this id.
    refine ⟨creator_append (fun e he hid hact => ?_) fun _ _ => rfl, fun hne => absurd rfl hne⟩
    have hknown := h.known e he
    rw [hid] at hknown
    rw [hnew] at hknown
    cases hknown
  · exact ⟨creator_append hsaid.1 fun _ hact => (by cases hact), fun hne => absurd rfl hne⟩
  · refine ⟨creator_append hsaid.1 fun _ hact => (by cases hact), fun _ => ?_⟩
    refine ⟨w.history, _, [], rfl, rfl, rfl, rfl, by simp, fun e he hauthors => ?_⟩
    rcases List.mem_append.mp he with h' | h'
    · cases hact : e.act with
      | created =>
        rw [hsaid.1 e h' hauthors.1 hact]
        exact notAuthor.symm
      | edited => exact hguard rule reason now op found may notAuthor e h' hauthors.1 hact
      | approved => exact absurd hact hauthors.2
    · rw [List.mem_singleton.mp h'] at hauthors
      exact absurd rfl hauthors.2

/-- A rule `activate` has put in force, and how it got past the approval check. -/
theorem activate_in_force {py : Python} {db db' : ManagementDb}
    (hop : s.op = .activate ruleId emergencyReason now)
    (h : s.perform py db = .ok (db', entries)) :
    ∃ rule, db.rules.find? ruleId = some rule ∧
      (rule.approvedBy ≠ "" ∨
        emergencyReason.truthy ∧ may s.actor.role .emergencyOverride) ∧
      db'.rules.find? ruleId = some { rule with state := .active, activatedAt := some now } := by
  obtain ⟨tenantId, actor, op⟩ := s
  cases hop
  obtain ⟨rule, hload, h⟩ := bind_eq_ok.mp h
  obtain ⟨⟨db₁, rule'⟩, hactivate, h⟩ := bind_eq_ok.mp h
  cases pure_eq_ok.mp h
  obtain ⟨hfound, rfl, -⟩ := load_found hload
  obtain ⟨-, happroval, hputs⟩ := activate_eq_ok hfound hactivate
  refine ⟨rule, hfound, happroval, ?_⟩
  rw [hputs.rules]
  let activated : Rule := { rule with state := .active, activatedAt := some now }
  have hold : db.rules.find? activated.id = some rule := hfound
  rw [Table.find?_put_of_found hold, if_pos rfl]

/-- **Four eyes over whole runs.** In a run from a database without rules in which no approval is
by an actor who has edited the rule, a rule that `activate` puts in force either had no approval,
and took the emergency path, or has a content that was approved after its last edit by an actor
who neither created nor edited it. -/
theorem four_eyes {py : Python} {steps : List LifecycleStep} (hrules : w.db.rules = ∅)
    (hhistory : w.history = []) (hguard : Along (lifecycleStep py) NoEditorApproves w steps)
    (hsplit : steps = pre ++ s :: post) (hrun : run (lifecycleStep py) w pre = some w')
    (hop : s.op = .activate ruleId emergencyReason now)
    (hactivate : s.perform py w'.db = .ok (db, entries)) :
    ∃ rule, w'.db.rules.find? ruleId = some rule ∧
      (∃ row, db.rules.find? ruleId = some row ∧ row.state = .active ∧
        row.content = rule.content) ∧
      ((rule.approvedBy = "" ∧ emergencyReason.truthy ∧ may s.actor.role .emergencyOverride) ∨
        rule.approvedBy ≠ "" ∧ FourEyes w'.history ruleId rule.content) := by
  have hstart : TrailInvariant w := by
    constructor
    · rw [hhistory]
      simp
    · rw [hhistory]
      simp
    · intro ruleId row hrow
      rw [hrules] at hrow
      cases hrow
  subst hsplit
  have hinv := ((along_append hrun).mp hguard).1.invariant (fun _ _ _ => trailInvariant_step)
    hstart hrun
  obtain ⟨rule, hfound, happroval, hactive⟩ := activate_in_force hop hactivate
  refine ⟨rule, hfound, ⟨_, hactive, rfl, rfl⟩, ?_⟩
  by_cases happroved : rule.approvedBy = ""
  · exact .inl ⟨happroved, happroval.resolve_left (not_not.mpr happroved)⟩
  · exact .inr ⟨happroved, hinv.approved ruleId rule hfound happroved⟩

end

/-! An officer edits an analyst's draft and approves their own edit. -/

def draftPython : Python := .reading "amount_minor > 50"
  (.compare (.name "amount_minor") [(.gt, .constant (.int 50))])

def draftContent : RuleContent :=
  { name := "Limit", category := "kyc", expression := "amount_minor > 50", severity := "block" }

def analyst : Actor := ⟨"usr_analyst", .complianceAnalyst, ""⟩

def officer : Actor := ⟨"usr_officer", .complianceOfficer, ""⟩

def secondOfficer : Actor := ⟨"usr_officer_two", .complianceOfficer, ""⟩

/-- A draft, its edit by the officer, and an approval. -/
def editedDraft (approver : Actor) : List LifecycleStep :=
  [⟨"tnt_1", analyst, .createDraft "rul_1" draftContent⟩,
    ⟨"tnt_1", officer, .editDraft "rul_1" { severity := some "allow_with_note" }⟩,
    ⟨"tnt_1", approver, .approve "rul_1" (.str "") 0⟩]

def activation : LifecycleStep := ⟨"tnt_1", officer, .activate "rul_1" (.str "") 1⟩

theorem four_eyes_second_officer :
    ∃ w db entries rule, run (lifecycleStep draftPython) {} (editedDraft secondOfficer) = some w ∧
      activation.perform draftPython w.db = .ok (db, entries) ∧
      w.db.rules.find? "rul_1" = some rule ∧ FourEyes w.history "rul_1" rule.content := by
  obtain ⟨w, db, entries, hw, hactivate⟩ : ∃ w db entries,
      run (lifecycleStep draftPython) {} (editedDraft secondOfficer) = some w ∧
        activation.perform draftPython w.db = .ok (db, entries) := ⟨_, _, _, rfl, rfl⟩
  have hguard : Along (lifecycleStep draftPython) NoEditorApproves {}
      (editedDraft secondOfficer ++ [activation]) := by
    refine ⟨by rintro rule reason now ⟨⟩, fun _ h => ?_⟩
    cases h
    refine ⟨by rintro rule reason now ⟨⟩, fun _ h => ?_⟩
    cases h
    refine ⟨fun rule reason now _ hfound _ _ e he _ hact => ?_, fun _ h => ?_⟩
    · rcases List.mem_cons.mp he with rfl | he
      · cases hact
      · rw [List.mem_singleton.mp he]
        decide
    · cases h
      exact ⟨by rintro rule reason now ⟨⟩, fun _ _ => trivial⟩
  obtain ⟨rule, hfound, -, ⟨hnone, -⟩ | ⟨-, hfour⟩⟩ :=
    four_eyes rfl rfl hguard rfl hw rfl hactivate
  · cases hw
    cases hfound
    exact absurd hnone (by decide)
  · exact ⟨w, db, entries, rule, hw, hactivate, hfound, hfour⟩

theorem editor_approves :
    ∃ w db entries rule, run (lifecycleStep draftPython) {} (editedDraft officer) = some w ∧
      activation.perform draftPython w.db = .ok (db, entries) ∧
      w.db.rules.find? "rul_1" = some rule ∧ rule.approvedBy ≠ "" ∧
      ¬ FourEyes w.history "rul_1" rule.content := by
  refine ⟨_, _, _, _, rfl, rfl, rfl, by decide, ?_⟩
  rintro ⟨before, entry, after, hsplit, hact, -, -, -, hothers⟩
  have hentry : entry ∈ before ++ entry :: after := by simp
  rw [← hsplit] at hentry
  have hofficer : entry.actor.id = officer.id := by
    rcases List.mem_cons.mp hentry with rfl | hentry
    · cases hact
    · rcases List.mem_cons.mp hentry with rfl | hentry
      · rfl
      · rw [List.mem_singleton.mp hentry]
  exact hothers ⟨officer, .edited, _⟩ (.tail _ (.head _)) ⟨rfl, by decide⟩ hofficer.symm

end ComplyLayer
