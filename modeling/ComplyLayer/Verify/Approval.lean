import ComplyLayer.Verify.Authority

/-!
# What an approval is good for

`activate` looks at `approved_by` and nothing else. An edit clears it; `archive` and
`move_to_shadow` leave it. So the approval an activation rests on is later than the last change of
the rule's content, but it may be older than its last archiving or move to shadow. It is not in a
run where no rule both comes to such a state with an approval and is put in force from it on one.
-/

namespace ComplyLayer

open Theory

section
variable (py : Python) (ruleId : String) (w : Trail) (s : LifecycleStep)

def LifecycleStep.Succeeds : Prop := ∃ result, s.perform py w.db = .ok result

/-- The step approves the rule. -/
def Approves : Prop :=
  (∃ reason now, s.op = .approve ruleId reason now) ∧ s.Succeeds py w

/-- The step archives the rule or moves it to shadow. -/
def Withdraws : Prop :=
  (s.op = .moveToShadow ruleId ∨ ∃ reason, s.op = .archive ruleId reason) ∧ s.Succeeds py w

/-- The step moves the rule to shadow or archives it, which leaves it in that state. -/
inductive WithdrawsTo : State → Prop
  | shadow (op : s.op = .moveToShadow ruleId) (succeeds : s.Succeeds py w) : WithdrawsTo .shadow
  | archived (reason : Value) (op : s.op = .archive ruleId reason) (succeeds : s.Succeeds py w) :
    WithdrawsTo .archived

/-- The step changes the content of the rule. -/
def Rewrites : Prop :=
  ∃ w' row row', lifecycleStep py w s = some w' ∧ w.db.rules.find? ruleId = some row ∧
    w'.db.rules.find? ruleId = some row' ∧ row'.content ≠ row.content

/-- The step puts the rule in force on the strength of an approval. -/
def ActivatesApproved : Prop :=
  (∃ emergencyReason now, s.op = .activate ruleId emergencyReason now) ∧ s.Succeeds py w ∧
    ∃ row, w.db.rules.find? ruleId = some row ∧ row.approvedBy ≠ ""

end

/-- Every activation that does not take the emergency path comes after an approval since which the
rule's content has not changed, and it has been neither archived nor moved to shadow. -/
def ApprovedForEntry (py : Python) (steps : List LifecycleStep) : Prop :=
  ∀ pre s post w ruleId, steps = pre ++ s :: post → run (lifecycleStep py) {} pre = some w →
    ActivatesApproved py ruleId w s →
      Since (lifecycleStep py) (Approves py ruleId)
        (fun w s => ¬ Rewrites py ruleId w s ∧ ¬ Withdraws py ruleId w s) {} pre

/-- Whatever takes the rule to the state takes it there without an approval. -/
def WithdrawnUnapproved (py : Python) (steps : List LifecycleStep) (ruleId : String)
    (state : State) : Prop :=
  Along (lifecycleStep py) (fun w s => WithdrawsTo py ruleId w s state →
    ∀ row, w.db.rules.find? ruleId = some row → row.approvedBy = "") {} steps

/-- No activation on the strength of an approval takes the rule from the state. -/
def NotEnteredFrom (py : Python) (steps : List LifecycleStep) (ruleId : String)
    (state : State) : Prop :=
  Along (lifecycleStep py) (fun w s => ActivatesApproved py ruleId w s →
    ∀ row, w.db.rules.find? ruleId = some row → row.state ≠ state) {} steps

section
variable {py : Python} {w w' : Trail} {s : LifecycleStep} {pre : List LifecycleStep} {row : Rule}

/-- A step that leaves the content of a rule that is there does not rewrite it. -/
theorem not_rewrites (hstep : lifecycleStep py w s = some w')
    (hrow : w.db.rules.find? ruleId = some row) (hrow' : w'.db.rules.find? ruleId = some row')
    (hcontent : row'.content = row.content) : ¬ Rewrites py ruleId w s := by
  rintro ⟨u, old, new, hu, hold, hnew, hchange⟩
  cases hstep.symm.trans hu
  cases hrow.symm.trans hold
  cases hrow'.symm.trans hnew
  exact hchange hcontent

/-- A step that succeeds, or one that changes nothing. -/
theorem lifecycleStep_cases (hstep : lifecycleStep py w s = some w') :
    s.Succeeds py w ∨ w' = w := by
  unfold lifecycleStep at hstep
  cases hperform : s.perform py w.db with
  | ok result => exact .inl ⟨result, hperform⟩
  | error e =>
    rw [hperform] at hstep
    cases hstep
    exact .inr rfl

/-- **An approval outlives nothing that changes the content.** Since a rule that bears an approval
was last approved, its content has not changed. -/
theorem approved_since (hrun : run (lifecycleStep py) {} pre = some w)
    (hrow : w.db.rules.find? ruleId = some row) (happroved : row.approvedBy ≠ "") :
    Since (lifecycleStep py) (Approves py ruleId) (fun w s => ¬ Rewrites py ruleId w s) {} pre := by
  induction pre using List.reverseRecOn generalizing w row with
  | nil =>
    cases hrun
    cases hrow
  | append_singleton pre s ih =>
    obtain ⟨v, hpre, hstep⟩ := run_concat_eq_some.mp hrun
    -- The approval of a row the step leaves it, with its content, is an earlier one.
    have hkept (old : Rule) (hold : v.db.rules.find? ruleId = some old)
        (hcontent : row.content = old.content) (happroval : row.approvedBy = old.approvedBy) :
        Since (lifecycleStep py) (Approves py ruleId) (fun w s => ¬ Rewrites py ruleId w s) {}
          (pre ++ [s]) :=
      (ih hpre hold (happroval ▸ happroved)).concat hpre (not_rewrites hstep hold hrow hcontent)
    rcases lifecycleStep_cases hstep with hsucceeds | rfl
    · have heffect := (lifecycleStep_effect hstep).row hrow
      generalize hfound : v.db.rules.find? ruleId = found at heffect
      cases heffect with
      | kept row => exact hkept row hfound rfl rfl
      | created newId content op => exact absurd rfl happroved
      | edited rule patch op tenant editable change => exact absurd rfl happroved
      | approved rule reason now op tenant may notAuthor =>
        have hid : rule.id = ruleId := (Table.find?_eq_some_iff.mp hfound).2
        exact since_of_last hpre ⟨⟨reason, now, hid ▸ op⟩, hsucceeds⟩ hstep
      | shadowed rule op tenant => exact hkept rule hfound rfl rfl
      | activated rule emergencyReason now op tenant approval => exact hkept rule hfound rfl rfl
      | archived rule reason op tenant => exact hkept rule hfound rfl rfl
    · exact hkept row hrow rfl rfl

theorem withdraws_iff : Withdraws py ruleId w s ↔ ∃ state, WithdrawsTo py ruleId w s state := by
  constructor
  · rintro ⟨op | ⟨reason, op⟩, succeeds⟩
    · exact ⟨_, .shadow op succeeds⟩
    · exact ⟨_, .archived reason op succeeds⟩
  · rintro ⟨state, h⟩
    cases h with
    | shadow op succeeds => exact ⟨.inl op, succeeds⟩
    | archived reason op succeeds => exact ⟨.inr ⟨reason, op⟩, succeeds⟩

/-- A rule that is withdrawn keeps its approval. -/
theorem WithdrawsTo.keeps (h : WithdrawsTo py ruleId w s state)
    (hstep : lifecycleStep py w s = some w') :
    ∃ row, w.db.rules.find? ruleId = some row ∧
      w'.db.rules.find? ruleId = some { row with state := state } := by
  obtain ⟨tenantId, actor, op⟩ := s
  -- What is loaded is put back in that state.
  have hput {rule : Rule} {db : ManagementDb} (hload : w.db.load tenantId ruleId = .ok rule)
      (hrules : db.rules = w.db.rules.put { rule with state := state }) :
      ∃ row, w.db.rules.find? ruleId = some row ∧
        db.rules.find? ruleId = some { row with state := state } := by
    obtain ⟨hfound, rfl, -⟩ := load_found hload
    have hself : (w.db.rules.put { rule with state := state }).find? rule.id =
        some { rule with state := state } :=
      Table.find?_put_self (Option.isSome_of_eq_some hfound)
    exact ⟨rule, hfound, by rw [hrules, hself]⟩
  obtain ⟨result, hperform⟩ : LifecycleStep.Succeeds py w ⟨tenantId, actor, op⟩ := by
    cases h <;> assumption
  rw [lifecycleStep, hperform] at hstep
  cases hstep
  cases h with
  | shadow op =>
    subst op
    obtain ⟨rule, hload, hperform⟩ := bind_eq_ok.mp hperform
    obtain ⟨⟨db, rule'⟩, hshadow, hperform⟩ := bind_eq_ok.mp hperform
    cases pure_eq_ok.mp hperform
    exact hput hload (moveToShadow_eq_ok (load_found hload).1 hshadow).2.rules
  | archived reason op =>
    subst op
    obtain ⟨rule, hload, hperform⟩ := bind_eq_ok.mp hperform
    obtain ⟨⟨db, rule'⟩, harchive, hperform⟩ := bind_eq_ok.mp hperform
    cases pure_eq_ok.mp hperform
    exact hput hload (archive_eq_ok (load_found hload).1 harchive).2.rules

/-- Where no approved activation takes a rule from the states it comes to with an approval, a rule
in another state that bears an approval was not withdrawn since. -/
theorem approved_since_withdrawal (held : State → Prop)
    (hunapproved : ∀ state, ¬ held state → WithdrawnUnapproved py pre ruleId state)
    (hheld : ∀ state, held state → NotEnteredFrom py pre ruleId state)
    (hrun : run (lifecycleStep py) {} pre = some w) (hrow : w.db.rules.find? ruleId = some row)
    (happroved : row.approvedBy ≠ "") (hstate : ¬ held row.state) :
    Since (lifecycleStep py) (Approves py ruleId) (fun w s => ¬ Withdraws py ruleId w s) {} pre := by
  induction pre using List.reverseRecOn generalizing w row with
  | nil =>
    cases hrun
    cases hrow
  | append_singleton pre s ih =>
    obtain ⟨v, hpre, hstep⟩ := run_concat_eq_some.mp hrun
    have hstep_unapproved (state : State) (h : ¬ held state) :=
      (along_append hpre).mp (hunapproved state h)
    have hstep_held (state : State) (h : held state) := (along_append hpre).mp (hheld state h)
    by_cases hwithdraws : Withdraws py ruleId v s
    · -- It bears the approval it was withdrawn with, into a state that is not held.
      obtain ⟨state, hto⟩ := withdraws_iff.mp hwithdraws
      obtain ⟨old, hold, hnew⟩ := hto.keeps hstep
      cases hrow.symm.trans hnew
      exact absurd ((hstep_unapproved state hstate).2.1 hto old hold) happroved
    · have hkept (old : Rule) (hold : v.db.rules.find? ruleId = some old)
          (happroval : old.approvedBy ≠ "") (hfree : ¬ held old.state) :
          Since (lifecycleStep py) (Approves py ruleId) (fun w s => ¬ Withdraws py ruleId w s) {}
            (pre ++ [s]) := by
        have hbefore := ih (fun state h => (hstep_unapproved state h).1)
          (fun state h => (hstep_held state h).1) hpre hold happroval hfree
        exact hbefore.concat hpre hwithdraws
      have hself {rule : Rule} (hfound : v.db.rules.find? ruleId = some rule) : rule.id = ruleId :=
        (Table.find?_eq_some_iff.mp hfound).2
      rcases lifecycleStep_cases hstep with hsucceeds | rfl
      · have heffect := (lifecycleStep_effect hstep).row hrow
        generalize hfound : v.db.rules.find? ruleId = found at heffect
        cases heffect with
        | kept row => exact hkept row hfound happroved hstate
        | created newId content op => exact absurd rfl happroved
        | edited rule patch op tenant editable change => exact absurd rfl happroved
        | approved rule reason now op tenant may notAuthor =>
          exact since_of_last hpre ⟨⟨reason, now, hself hfound ▸ op⟩, hsucceeds⟩ hstep
        | shadowed rule op tenant =>
          exact absurd ⟨.inl (hself hfound ▸ op), hsucceeds⟩ hwithdraws
        | activated rule emergencyReason now op tenant approval =>
          refine hkept rule hfound happroved fun hfrom => ?_
          exact (hstep_held rule.state hfrom).2.1
            ⟨⟨emergencyReason, now, hself hfound ▸ op⟩, hsucceeds, rule, hfound, happroved⟩ rule
            hfound rfl
        | archived rule reason op tenant =>
          exact absurd ⟨.inr ⟨reason, hself hfound ▸ op⟩, hsucceeds⟩ hwithdraws
      · exact hkept row hrow happroved hstate

/-- **One approval, one entry into force.** In every run of lifecycle operations where no rule both
comes to a state with an approval and is put in force from that state on one, each activation on the
strength of an approval comes after an approve of the rule as it is, since which it has been neither
archived nor moved to shadow. -/
theorem approved_for_entry (py : Python) (steps : List LifecycleStep)
    (h : ∀ ruleId state, WithdrawnUnapproved py steps ruleId state ∨
      NotEnteredFrom py steps ruleId state) : ApprovedForEntry py steps := by
  rintro pre s post w ruleId rfl hrun hactivates
  have ⟨_, _, row, hrow, happroved⟩ := hactivates
  refine (approved_since hrun hrow happroved).and (approved_since_withdrawal
    (fun state => NotEnteredFrom py (pre ++ s :: post) ruleId state)
    (fun state hstate => ?_) (fun state hstate => ?_) hrun hrow happroved fun hstate => ?_)
  · exact ((along_append hrun).mp ((h ruleId state).resolve_right hstate)).1
  · exact ((along_append hrun).mp hstate).1
  · exact ((along_append hrun).mp hstate).2.1 hactivates row hrow rfl

end

/-! A rule in force is archived, and put in force again on the approval it had. -/

def ruleArchival : LifecycleStep := ⟨"tnt_1", ruleOfficer, .archive "rul_1" (.str "")⟩

def ruleActivation : LifecycleStep := ⟨"tnt_1", ruleOfficer, .activate "rul_1" (.str "") 2⟩

theorem approved_for_entry_archived :
    ApprovedForEntry rulePython (activatedRule ++ [ruleArchival]) := by
  refine approved_for_entry rulePython _ fun ruleId state => ?_
  by_cases hstate : state = .archived
  · -- The one activation takes a draft.
    right
    subst hstate
    unfold NotEnteredFrom
    rw [along_iff_forall]
    rintro before s after w hsplit hrun ⟨⟨emergencyReason, now, hop⟩, -⟩ row hrow
    rcases before with _ | ⟨_, _ | ⟨_, _ | ⟨_, _ | ⟨_, before⟩⟩⟩⟩
    · cases hsplit
      cases hop
    · cases hsplit
      cases hop
    · cases hsplit
      cases hop
      cases hrun
      cases hrow
      decide
    · cases hsplit
      cases hop
    · simp [activatedRule] at hsplit
  · left
    refine along_of_forall fun s hs w hto => ?_
    have hnoshadow : ∀ s ∈ activatedRule ++ [ruleArchival], s.op ≠ .moveToShadow ruleId := by
      simp [activatedRule, ruleArchival]
    cases hto with
    | shadow op succeeds => exact absurd op (hnoshadow s hs)
    | archived reason op succeeds => exact absurd rfl hstate

theorem archived_rule_reactivated :
    ¬ ApprovedForEntry rulePython (activatedRule ++ [ruleArchival] ++ [ruleActivation]) := by
  intro h
  obtain ⟨w, hrun⟩ : ∃ w, run (lifecycleStep rulePython) {} (activatedRule ++ [ruleArchival]) =
      some w := ⟨_, rfl⟩
  have hactivates : ActivatesApproved rulePython "rul_1" w ruleActivation := by
    cases hrun
    exact ⟨⟨_, _, rfl⟩, ⟨_, rfl⟩, _, rfl, by decide⟩
  obtain ⟨before, a, after, t, u, hsplit, hbefore, ⟨⟨reason, now, hop⟩, -⟩, hstep, hafter⟩ :=
    h _ _ [] w "rul_1" rfl hrun hactivates
  rcases before with _ | ⟨_, _ | ⟨_, _ | ⟨_, _ | ⟨_, before⟩⟩⟩⟩
  · cases hsplit
    cases hop
  · -- The one approval: the archiving comes after it.
    cases hsplit
    cases hbefore
    cases hstep
    exact ((hafter.2 _ rfl).1).2 ⟨.inr ⟨_, rfl⟩, ⟨_, rfl⟩⟩
  · cases hsplit
    cases hop
  · cases hsplit
    cases hop
  · simp [activatedRule] at hsplit

end ComplyLayer
