import ComplyLayer.Rules.Transitions

/-!
# Names and version numbers

A rule's version counts its own edits, and a name may be at one version of one rule of a tenant
only. So a creation fails where a rule of that name was never edited, and an edit where another rule
of the name it gives was edited once more often than the rule.
-/

namespace ComplyLayer

open Theory

/-- How often the rule was edited. -/
def edits (history : List Entry) (ruleId : String) : Nat :=
  history.countP fun e => e.rule.id = ruleId ∧ e.act = .edited

/-- The version of every rule is its number of edits, from one. -/
def CountsEdits : Trail → Prop :=
  Trail.Rows fun history row => row.version = edits history row.id + 1

/-- The database refuses no creation under a new id, and no edit. -/
def NotRefused (py : Python) (w : Trail) (s : LifecycleStep) : Prop :=
  (∀ ruleId content, s.op = .createDraft ruleId content → w.db.rules.find? ruleId = none →
    s.perform py w.db ≠ .error .integrityError) ∧
  ∀ ruleId patch, s.op = .editDraft ruleId patch → s.perform py w.db ≠ .error .integrityError

/-- Whoever may create a draft gives it no name of a rule that was never edited, and whoever may
edit a rule gives it no name of another that was edited just once more. -/
def EditsApart (py : Python) (w : Trail) (s : LifecycleStep) : Prop :=
  (∀ ruleId content, s.op = .createDraft ruleId content → w.db.rules.find? ruleId = none →
    may s.actor.role .createDraft → validateExpression py content.expression = .ok () →
    ∀ other ∈ w.db.rules.rows, other.tenantId = s.tenantId → other.content.name = content.name →
      edits w.history other.id ≠ 0) ∧
  ∀ rule patch, s.op = .editDraft rule.id patch → w.db.rules.find? rule.id = some rule →
    rule.tenantId = s.tenantId → may s.actor.role .editDraft → rule.state.Editable →
    validatePatch py patch = .ok () → (rule.edit patch).content ≠ rule.content →
    ∀ other ∈ w.db.rules.rows, other.id ≠ rule.id → other.tenantId = s.tenantId →
      other.content.name = (rule.edit patch).content.name →
      edits w.history other.id ≠ edits w.history rule.id + 1

section
variable {py : Python} {db : ManagementDb} {rule : Rule} {actor : Actor} {w w' : Trail}
  {s : LifecycleStep} {history : List Entry}

theorem edits_append (history : List Entry) (e : Entry) (ruleId : String) :
    edits (history ++ [e]) ruleId =
      edits history ruleId + if e.rule.id = ruleId ∧ e.act = .edited then 1 else 0 := by
  rw [edits, List.countP_append, List.countP_singleton]
  simp only [decide_eq_true_eq]
  rfl

theorem edits_eq_zero (h : ∀ e ∈ history, e.rule.id ≠ ruleId) : edits history ruleId = 0 :=
  List.countP_eq_zero.mpr fun e he hedit => h e he (of_decide_eq_true hedit).1

theorem countsEdits_step (h : CountsEdits w) (hknown : w.Known)
    (heffect : LifecycleEffect w s w') : CountsEdits w' := by
  refine h.step heffect (fun row e hne hcounts => ?_) (fun row state activatedAt hcounts => hcounts)
    (fun ruleId content hnew => ?_) (fun rule patch found hcounts => ?_)
    fun rule reason now op may found notAuthor hcounts => ?_
  · rw [edits_append, if_neg fun hedit => hne hedit.1]
    exact hcounts
  · -- Nothing is known of a rule before it is created.
    have hzero : edits w.history ruleId = 0 := edits_eq_zero fun e he hid => by
      have hfound := hknown e he
      rw [hid, hnew] at hfound
      cases hfound
    rw [edits_append, if_neg (by simp), hzero]
  · rw [edits_append, if_pos ⟨rfl, rfl⟩]
    exact congrArg (· + 1) hcounts
  · rw [edits_append, if_neg (by simp)]
    exact hcounts

/-! ## When the database refuses -/

theorem nameVersionTaken_iff : db.nameVersionTaken rule ↔
    ∃ other ∈ db.rules.rows, other.id ≠ rule.id ∧ other.nameVersion = rule.nameVersion := by
  simp [ManagementDb.nameVersionTaken]

theorem permit_ne_integrityError : permit actor action ≠ .error .integrityError := by
  rw [permit]
  cases require actor action with
  | ok _ => exact fun h => (by cases h)
  | error e => exact fun h => (by cases h)

theorem validateExpression_ne_integrityError :
    validateExpression py expression ≠ .error .integrityError := by
  unfold validateExpression
  split
  · exact fun h => (by cases h)
  · exact fun h => (by cases h)
  · exact fun h => (by cases h)

theorem validatePatch_ne_integrityError : validatePatch py patch ≠ .error .integrityError := by
  unfold validatePatch
  split
  · exact validateExpression_ne_integrityError
  · exact fun h => (by cases h)

theorem requireEditable_ne_integrityError :
    requireEditable rule message ≠ .error .integrityError := by
  unfold requireEditable
  split
  · exact fun h => (by cases h)
  · exact fun h => (by cases h)

theorem createDraft_refused_iff (hnew : db.rules.find? ruleId = none) :
    createDraft py db tenantId actor ruleId content = .error .integrityError ↔
      may actor.role .createDraft ∧ validateExpression py content.expression = .ok () ∧
        db.nameVersionTaken { id := ruleId, tenantId, content, createdBy := actor.id } := by
  let rule : Rule := { id := ruleId, tenantId, content, createdBy := actor.id }
  have hcreate : db.createRule rule = .error .integrityError ↔ db.nameVersionTaken rule := by
    rw [ManagementDb.createRule]
    by_cases htaken : db.nameVersionTaken rule
    · rw [if_pos htaken]
      exact iff_of_true rfl htaken
    · cases hinsert : db.rules.insert? rule with
      | none =>
        have hsome := Table.insert?_eq_none_iff.mp hinsert
        rw [hnew] at hsome
        cases hsome
      | some rules =>
        rw [if_neg htaken]
        exact iff_of_false (fun h => by cases h) htaken
  rw [createDraft, seq_eq_error, permit_eq_ok_iff, seq_eq_error, bind_eq_error]
  constructor
  · rintro (h | ⟨hmay, h | ⟨hvalid, h | ⟨db', -, h⟩⟩⟩)
    · exact absurd h permit_ne_integrityError
    · exact absurd h validateExpression_ne_integrityError
    · exact ⟨hmay, hvalid, hcreate.mp h⟩
    · cases h
  · rintro ⟨hmay, hvalid, htaken⟩
    exact .inr ⟨hmay, .inr ⟨hvalid, .inl (hcreate.mpr htaken)⟩⟩

theorem editDraft_refused_iff :
    editDraft py db rule actor patch = .error .integrityError ↔
      may actor.role .editDraft ∧ rule.state.Editable ∧ validatePatch py patch = .ok () ∧
        (rule.edit patch).content ≠ rule.content ∧ db.nameVersionTaken (rule.edit patch) := by
  have hsave : db.saveRule (rule.edit patch) = .error .integrityError ↔
      db.nameVersionTaken (rule.edit patch) := by
    rw [ManagementDb.saveRule]
    by_cases htaken : db.nameVersionTaken (rule.edit patch)
    · rw [if_pos htaken]
      exact iff_of_true rfl htaken
    · rw [if_neg htaken]
      exact iff_of_false (fun h => by cases h) htaken
  rw [editDraft, seq_eq_error, permit_eq_ok_iff, seq_eq_error, requireEditable_eq_ok_iff,
    seq_eq_error]
  by_cases hsame : patch.apply rule.content = rule.content
  · rw [if_pos (changesOf_isEmpty_iff.mpr hsame)]
    constructor
    · rintro (h | ⟨-, h | ⟨-, h | ⟨-, h⟩⟩⟩)
      · exact absurd h permit_ne_integrityError
      · exact absurd h requireEditable_ne_integrityError
      · exact absurd h validatePatch_ne_integrityError
      · cases h
    · rintro ⟨-, -, -, hchange, -⟩
      exact absurd hsame hchange
  · rw [if_neg fun hempty => hsame (changesOf_isEmpty_iff.mp hempty), bind_eq_error]
    constructor
    · rintro (h | ⟨hmay, h | ⟨heditable, h | ⟨hvalid, h | ⟨db', -, h⟩⟩⟩⟩)
      · exact absurd h permit_ne_integrityError
      · exact absurd h requireEditable_ne_integrityError
      · exact absurd h validatePatch_ne_integrityError
      · exact ⟨hmay, heditable, hvalid, hsame, hsave.mp h⟩
      · cases h
    · rintro ⟨hmay, heditable, hvalid, -, htaken⟩
      exact .inr ⟨hmay, .inr ⟨heditable, .inr ⟨hvalid, .inl (hsave.mpr htaken)⟩⟩⟩

/-- Another rule is at the same name and version where it was edited as often. -/
theorem CountsEdits.taken_iff (h : CountsEdits w) {row : Rule} {n : Nat}
    (hversion : row.version = n + 1) : w.db.nameVersionTaken row ↔
      ∃ other ∈ w.db.rules.rows, other.id ≠ row.id ∧ other.tenantId = row.tenantId ∧
        other.content.name = row.content.name ∧ edits w.history other.id = n := by
  rw [nameVersionTaken_iff]
  refine exists_congr fun other => and_congr_right fun hmem => and_congr_right fun _ => ?_
  have hother : other.version = edits w.history other.id + 1 :=
    h other (Table.find?_eq_some_iff.mpr ⟨hmem, rfl⟩)
  rw [Rule.nameVersion, Rule.nameVersion, Prod.mk.injEq, Prod.mk.injEq, hversion, hother,
    Nat.add_right_cancel_iff]

theorem perform_createDraft_refused_iff (hop : s.op = .createDraft ruleId content) :
    s.perform py db = .error .integrityError ↔
      createDraft py db s.tenantId s.actor ruleId content = .error .integrityError := by
  obtain ⟨tenantId, actor, op⟩ := s
  cases hop
  refine bind_eq_error.trans ⟨fun h => ?_, .inl⟩
  rcases h with h | ⟨⟨db', rule⟩, -, h⟩
  · exact h
  · cases h

theorem perform_editDraft_refused_iff (hop : s.op = .editDraft ruleId patch) :
    s.perform py db = .error .integrityError ↔ ∃ rule, db.load s.tenantId ruleId = .ok rule ∧
      editDraft py db rule s.actor patch = .error .integrityError := by
  obtain ⟨tenantId, actor, op⟩ := s
  cases hop
  refine bind_eq_error.trans ⟨fun h => ?_, fun ⟨rule, hload, h⟩ => ?_⟩
  · rcases h with h | ⟨rule, hload, h⟩
    · unfold ManagementDb.load at h
      split at h
      · cases h
      · cases h
    · rcases bind_eq_error.mp h with h | ⟨⟨db', edited⟩, -, h⟩
      · exact ⟨rule, hload, h⟩
      · cases h
  · exact .inr ⟨rule, hload, bind_eq_error.mpr (.inl h)⟩

/-- One step. -/
theorem notRefused_iff (hcounts : CountsEdits w) : NotRefused py w s ↔ EditsApart py w s := by
  refine and_congr ?_ ?_
  · refine forall₄_congr fun ruleId content hop hnew => ?_
    let row : Rule := { id := ruleId, tenantId := s.tenantId, content, createdBy := s.actor.id }
    have hversion : row.version = 0 + 1 := rfl
    have hid {other : Rule} (hmem : other ∈ w.db.rules.rows) : other.id ≠ row.id := fun heq =>
      Table.find?_eq_none_iff.mp hnew (List.mem_map.mpr ⟨other, hmem, heq⟩)
    rw [ne_eq, perform_createDraft_refused_iff hop, createDraft_refused_iff hnew,
      hcounts.taken_iff hversion]
    constructor
    · intro h hmay hvalid other hmem htenant hname hzero
      exact h ⟨hmay, hvalid, other, hmem, hid hmem, htenant, hname, hzero⟩
    · rintro h ⟨hmay, hvalid, other, hmem, -, htenant, hname, hzero⟩
      exact h hmay hvalid other hmem htenant hname hzero
  · constructor
    · intro h rule patch hop hfound htenant hmay heditable hvalid hchange other hmem hid hsame
        hname hedits
      refine h rule.id patch hop ((perform_editDraft_refused_iff hop).mpr ⟨rule, ?_, ?_⟩)
      · exact ManagementDb.load_eq_ok_iff.mpr ⟨hfound, htenant⟩
      · have hversion : (rule.edit patch).version = edits w.history rule.id + 1 + 1 :=
          congrArg (· + 1) (hcounts rule hfound)
        refine editDraft_refused_iff.mpr ⟨hmay, heditable, hvalid, hchange, ?_⟩
        exact (hcounts.taken_iff hversion).mpr
          ⟨other, hmem, hid, hsame.trans htenant.symm, hname, hedits⟩
    · intro h ruleId patch hop hrefused
      obtain ⟨rule, hload, hedit⟩ := (perform_editDraft_refused_iff hop).mp hrefused
      obtain ⟨hfound, rfl, htenant⟩ := load_found hload
      obtain ⟨hmay, heditable, hvalid, hchange, htaken⟩ := editDraft_refused_iff.mp hedit
      have hversion : (rule.edit patch).version = edits w.history rule.id + 1 + 1 :=
        congrArg (· + 1) (hcounts rule hfound)
      obtain ⟨other, hmem, hid, hsame, hname, hedits⟩ :=
        (hcounts.taken_iff hversion).mp htaken
      exact h rule patch hop hfound htenant hmay heditable hvalid hchange other hmem hid
        (hsame.trans htenant) hname hedits

/-- **The unique constraint.** Over a run from a database without rules, the database refuses no
creation and no edit just where nobody gives a rule the name of another that was edited as often. -/
theorem permitted_edit_stands_iff {steps : List LifecycleStep} (hrules : w.db.rules = ∅)
    (hhistory : w.history = []) :
    Along (lifecycleStep py) (NotRefused py) w steps ↔
      Along (lifecycleStep py) (EditsApart py) w steps := by
  have hstart : w.Known ∧ CountsEdits w := by
    constructor
    · rw [Trail.Known, hhistory]
      exact fun e he => absurd he List.not_mem_nil
    · intro row hrow
      rw [hrules] at hrow
      cases hrow
  have hkeep (u : Trail) (s : LifecycleStep) (u' : Trail) (h : u.Known ∧ CountsEdits u)
      (_ : NotRefused py u s) (hstep : lifecycleStep py u s = some u') :
      u'.Known ∧ CountsEdits u' := by
    have heffect := lifecycleStep_effect hstep
    exact ⟨h.1.step heffect, countsEdits_step h.2 h.1 heffect⟩
  exact along_congr (fun _ _ h => notRefused_iff h.2) hkeep hstart

end

/-! A rule that is edited and archived, and one that is archived as it was created: their names are
given to a new rule. -/

def limitContent : RuleContent :=
  { name := "Limit", category := "kyc", expression := "amount_minor > 50", severity := "block" }

def limitPython : Python := .reading "amount_minor > 50"
  (.compare (.name "amount_minor") [(.gt, .constant (.int 50))])

def byOfficer (op : LifecycleOp) : LifecycleStep :=
  ⟨"tnt_1", ⟨"usr_officer", .complianceOfficer, ""⟩, op⟩

def replacedAfterEdit : List LifecycleStep :=
  [byOfficer (.createDraft "rul_1" limitContent),
    byOfficer (.editDraft "rul_1" { severity := some "flag" }),
    byOfficer (.archive "rul_1" (.str "")),
    byOfficer (.createDraft "rul_2" limitContent)]

def replacedAsCreated : List LifecycleStep :=
  [byOfficer (.createDraft "rul_1" limitContent), byOfficer (.archive "rul_1" (.str "")),
    byOfficer (.createDraft "rul_2" limitContent)]

theorem permitted_edit_stands_edited :
    Along (lifecycleStep limitPython) (NotRefused limitPython) {} replacedAfterEdit := by
  refine (permitted_edit_stands_iff rfl rfl).mpr ⟨⟨fun _ _ _ _ _ _ other hmem => ?_, ?_⟩, ?_⟩
  · cases hmem
  · rintro rule patch ⟨⟩
  intro w₁ h₁
  cases h₁
  refine ⟨⟨by rintro ruleId content ⟨⟩, fun rule patch hop _ _ _ _ _ _ other hmem hid => ?_⟩, ?_⟩
  · obtain ⟨hrule, -⟩ := LifecycleOp.editDraft.inj hop
    rw [List.mem_singleton.mp hmem] at hid
    exact absurd hrule hid
  intro w₂ h₂
  cases h₂
  refine ⟨⟨by rintro ruleId content ⟨⟩, by rintro rule patch ⟨⟩⟩, fun w₃ h₃ => ?_⟩
  cases h₃
  refine ⟨⟨fun _ _ _ _ _ _ other hmem _ _ => ?_, by rintro rule patch ⟨⟩⟩, fun _ _ => trivial⟩
  rw [List.mem_singleton.mp hmem]
  decide

theorem archived_name_refused :
    ¬ Along (lifecycleStep limitPython) (NotRefused limitPython) {} replacedAsCreated := by
  intro h
  have hlaw := along_iff_forall.mp h
    [byOfficer (.createDraft "rul_1" limitContent), byOfficer (.archive "rul_1" (.str ""))]
    (byOfficer (.createDraft "rul_2" limitContent)) [] _ rfl rfl
  exact hlaw.1 "rul_2" limitContent rfl rfl rfl

end ComplyLayer
