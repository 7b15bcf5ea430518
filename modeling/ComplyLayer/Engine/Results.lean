import ComplyLayer.Engine.Evaluation
import Mathlib.Tactic.Tauto

/-!
# What a decision is made of

How one rule's evaluation ends, what `evaluateAll` collects over a list of rules, and which rules
`decidingOf` keeps. The results of `decide` are read off these, without its body.
-/

namespace ComplyLayer

open Theory

theorem RuleEvaluationError.reason_ne_empty (py : Python) (e : RuleEvaluationError) :
    e.reason py ≠ "" := by
  rw [RuleEvaluationError.reason.eq_def]
  cases e <;> simp only [ne_eq, toString, String.append_eq_empty_iff] <;> simp

namespace CompiledRule

variable {rule : CompiledRule} {c : EvaluationContext} {limit : Nat}

/-- Evaluating the rule ends in `true`. -/
def Matches (rule : CompiledRule) (c : EvaluationContext) (limit : Nat) : Prop :=
  ∃ k, (Interpreter.run c limit rule.tree).run 0 = (.ok true, k)

/-- Evaluating the rule ends in `RuleEvaluationError`. -/
def Errs (rule : CompiledRule) (c : EvaluationContext) (limit : Nat) : Prop :=
  ∃ e k, (Interpreter.run c limit rule.tree).run 0 = (.error (.evaluation e), k)

/-- Evaluating the rule ends in one of the two ways `evaluateOne` handles: a boolean, or
`RuleEvaluationError`. -/
def Ends (rule : CompiledRule) (c : EvaluationContext) (limit : Nat) : Prop :=
  (∃ b k, (Interpreter.run c limit rule.tree).run 0 = (.ok b, k)) ∨ rule.Errs c limit

theorem Errs.not_matches (h : rule.Errs c limit) : ¬ rule.Matches c limit := by
  rintro ⟨k, hk⟩
  obtain ⟨e, j, he⟩ := h
  rw [hk] at he
  cases he

end CompiledRule

/-! ## One rule -/

variable {py : Python} {c : EvaluationContext} {limit : Nat}

/-- A result of `evaluateOne` is the rule's, and says how its evaluation ended. -/
structure RuleOutcome.Reports (r : RuleOutcome) (c : EvaluationContext) (limit : Nat) : Prop where
  matched_iff : r.matched ↔ r.rule.Matches c limit
  errored_iff : r.errored ↔ r.rule.Errs c limit

theorem evaluateOne_spec (h : evaluateOne py rule c limit = .ok r) :
    r.rule = rule ∧ r.Reports c limit := by
  unfold evaluateOne at h
  split at h
  · rename_i b k hrun
    cases h
    refine ⟨rfl, ?_, ?_⟩
    · cases b <;> simp [CompiledRule.Matches, hrun]
    · simp [CompiledRule.Errs, hrun, RuleOutcome.errored]
  · rename_i e k hrun
    cases h
    refine ⟨rfl, ?_, ?_⟩
    · simp [CompiledRule.Matches, hrun]
    · simp [CompiledRule.Errs, hrun, RuleOutcome.errored, e.reason_ne_empty py]
  · cases h

theorem evaluateOne_isOk_iff (py : Python) (rule : CompiledRule) :
    (∃ r, evaluateOne py rule c limit = .ok r) ↔ rule.Ends c limit := by
  unfold evaluateOne CompiledRule.Ends CompiledRule.Errs
  rcases hrun : (Interpreter.run c limit rule.tree).run 0 with ⟨(_ | _) | _, k⟩ <;> simp

/-! ## A list of rules -/

/-- The results are those of the rules, one each, in order. -/
structure ReportsAll (rules : List CompiledRule) (c : EvaluationContext) (limit : Nat)
    (results : List RuleOutcome) : Prop where
  rules_eq : results.map (·.rule) = rules
  reports : ∀ r ∈ results, r.Reports c limit

theorem evaluateAll_spec (h : evaluateAll py rules c limit = .ok results) :
    ReportsAll rules c limit results := by
  induction rules generalizing results with
  | nil => cases h; exact ⟨rfl, by simp⟩
  | cons rule rest ih =>
    rw [evaluateAll, List.mapM_cons] at h
    cases hr : evaluateOne py rule c limit with
    | error e => rw [hr] at h; cases h
    | ok r =>
      cases hrest : evaluateAll py rest c limit with
      | error e => rw [hr] at h; rw [evaluateAll] at hrest; rw [hrest] at h; cases h
      | ok rs =>
        have heq : r :: rs = results := by
          rw [hr] at h
          rw [evaluateAll] at hrest
          rw [hrest] at h
          exact Except.ok.inj h
        subst heq
        obtain ⟨hrule, hreports⟩ := evaluateOne_spec hr
        refine ⟨by rw [List.map_cons, hrule, (ih hrest).rules_eq], ?_⟩
        exact List.forall_mem_cons.mpr ⟨hreports, (ih hrest).reports⟩

theorem evaluateAll_isOk_iff (py : Python) :
    (∃ results, evaluateAll py rules c limit = .ok results) ↔ ∀ rule ∈ rules, rule.Ends c limit := by
  induction rules with
  | nil => exact iff_of_true ⟨[], rfl⟩ (by simp)
  | cons rule rest ih =>
    rw [List.forall_mem_cons, ← ih, ← evaluateOne_isOk_iff py rule]
    rw [evaluateAll, List.mapM_cons]
    change (∃ results, (evaluateOne py rule c limit >>= fun r =>
      evaluateAll py rest c limit >>= fun rs => pure (r :: rs)) = .ok results) ↔ _
    cases evaluateOne py rule c limit <;> cases evaluateAll py rest c limit <;>
      simp [bind, Except.bind, pure, Except.pure]

namespace ReportsAll

variable {rules : List CompiledRule} {results : List RuleOutcome}

theorem mem_matched_iff (h : ReportsAll rules c limit results) :
    rule ∈ (results.filter (·.matched)).map (·.rule) ↔ rule ∈ rules ∧ rule.Matches c limit := by
  rw [← h.rules_eq]
  constructor
  · intro hmem
    obtain ⟨r, hr, rfl⟩ := List.mem_map.mp hmem
    obtain ⟨hr, hm⟩ := List.mem_filter.mp hr
    exact ⟨List.mem_map_of_mem hr, (h.reports r hr).matched_iff.mp hm⟩
  · rintro ⟨hmem, hm⟩
    obtain ⟨r, hr, rfl⟩ := List.mem_map.mp hmem
    exact List.mem_map_of_mem (List.mem_filter.mpr ⟨hr, (h.reports r hr).matched_iff.mpr hm⟩)

theorem mem_errored_iff (h : ReportsAll rules c limit results) :
    rule ∈ (results.filter (·.errored)).map (·.rule) ↔ rule ∈ rules ∧ rule.Errs c limit := by
  rw [← h.rules_eq]
  constructor
  · intro hmem
    obtain ⟨r, hr, rfl⟩ := List.mem_map.mp hmem
    obtain ⟨hr, he⟩ := List.mem_filter.mp hr
    exact ⟨List.mem_map_of_mem hr, (h.reports r hr).errored_iff.mp he⟩
  · rintro ⟨hmem, he⟩
    obtain ⟨r, hr, rfl⟩ := List.mem_map.mp hmem
    exact List.mem_map_of_mem (List.mem_filter.mpr ⟨hr, (h.reports r hr).errored_iff.mpr he⟩)

/-- The rules that matched, in the order of the rules. -/
theorem matched_congr {c' : EvaluationContext} {results' : List RuleOutcome}
    (h : ReportsAll rules c limit results) (h' : ReportsAll rules c' limit results')
    (hmatches : ∀ rule ∈ rules, rule.Matches c limit ↔ rule.Matches c' limit) :
    (results.filter (·.matched)).map (·.rule) = (results'.filter (·.matched)).map (·.rule) := by
  classical
  have heq {c : EvaluationContext} {results : List RuleOutcome}
      (h : ReportsAll rules c limit results) : (results.filter (·.matched)).map (·.rule) =
        rules.filter fun rule => decide (rule.Matches c limit) := by
    rw [← h.rules_eq, List.filter_map]
    refine congrArg _ (List.filter_congr fun r hr => ?_)
    rw [Bool.eq_iff_iff, (h.reports r hr).matched_iff]
    exact decide_eq_true_iff.symm
  rw [heq h, heq h']
  exact List.filter_congr fun rule hrule => decide_eq_decide.mpr (hmatches rule hrule)

theorem append (h₁ : ReportsAll rules₁ c limit results₁) (h₂ : ReportsAll rules₂ c limit results₂) :
    ReportsAll (rules₁ ++ rules₂) c limit (results₁ ++ results₂) where
  rules_eq := by rw [List.map_append, h₁.rules_eq, h₂.rules_eq]
  reports r hr := (List.mem_append.mp hr).elim (h₁.reports r) (h₂.reports r)

/-- A decision is degraded when a rule errs. -/
theorem degraded_iff (hlive : ReportsAll active c limit live)
    (hshadow : ReportsAll inShadow c limit shadow) (fallback : Dict Severity String) :
    (combineResults fallback live shadow).degraded ↔
      ∃ rule ∈ active ++ inShadow, rule.Errs c limit := by
  have hmem (rule : CompiledRule) : rule ∈ ((live ++ shadow).filter (·.errored)).map (·.rule) ↔
      rule ∈ active ++ inShadow ∧ rule.Errs c limit := (hlive.append hshadow).mem_errored_iff
  simp only [← hmem]
  cases hfilter : (live ++ shadow).filter (·.errored) with
  | nil => simp [combineResults, hfilter]
  | cons r rest => simp [combineResults, hfilter]

end ReportsAll

/-! ## The deciding rules -/

/-- The rule matched, or it errored and the effective policy for its severity is closed. -/
def CompiledRule.Decides (rule : CompiledRule) (c : EvaluationContext) (limit : Nat)
    (fallback : Dict Severity String) : Prop :=
  rule.Matches c limit ∨
    rule.Errs c limit ∧ (effectivePolicy fallback).get? rule.severity = some "closed"

/-- The rules `decidingOf` indexes by their id. -/
def candidates (fallback : Dict Severity String) (live : List RuleOutcome) : List CompiledRule :=
  (live.filter (·.matched)).map (·.rule) ++
    (live.filter fun r => r.errored && failsClosed fallback r.rule.severity).map (·.rule)

theorem decidingOf_eq (fallback : Dict Severity String) (live : List RuleOutcome) :
    decidingOf fallback live = sortBy CompiledRule.sortKey
      (Dict.ofList ((candidates fallback live).map fun rule => (rule.id, rule))).values := rfl

section
variable {fallback : Dict Severity String} {rules : List CompiledRule} {live : List RuleOutcome}

theorem mem_candidates_iff (h : ReportsAll rules c limit live) :
    rule ∈ candidates fallback live ↔ rule ∈ rules ∧ rule.Decides c limit fallback := by
  have hclosed : rule ∈ (live.filter fun r =>
      r.errored && failsClosed fallback r.rule.severity).map (·.rule) ↔
        rule ∈ (live.filter (·.errored)).map (·.rule) ∧ failsClosed fallback rule.severity := by
    simp only [List.mem_map, List.mem_filter, Bool.and_eq_true]
    constructor
    · rintro ⟨r, ⟨hr, he, hf⟩, rfl⟩
      exact ⟨⟨r, ⟨hr, he⟩, rfl⟩, hf⟩
    · rintro ⟨⟨r, ⟨hr, he⟩, rfl⟩, hf⟩
      exact ⟨r, ⟨hr, he, hf⟩, rfl⟩
  rw [candidates, List.mem_append, h.mem_matched_iff, hclosed, h.mem_errored_iff,
    CompiledRule.Decides, failsClosed, beq_iff_eq]
  tauto

theorem mem_of_mem_decidingOf (h : ReportsAll rules c limit live)
    (hmem : rule ∈ decidingOf fallback live) : rule ∈ rules ∧ rule.Decides c limit fallback := by
  rw [decidingOf_eq, mem_sortBy] at hmem
  exact (mem_candidates_iff h).mp (Dict.mem_of_mem_values_index hmem)

theorem exists_mem_decidingOf (h : ReportsAll rules c limit live) (hmem : rule ∈ rules)
    (hd : rule.Decides c limit fallback) : ∃ r ∈ decidingOf fallback live, r.id = rule.id := by
  obtain ⟨r, hr, hid⟩ := Dict.exists_mem_values_index (f := CompiledRule.id)
    ((mem_candidates_iff h).mpr ⟨hmem, hd⟩)
  exact ⟨r, by rwa [decidingOf_eq, mem_sortBy], hid⟩

/-- Over rules with distinct ids, indexing by id loses none. -/
theorem mem_decidingOf_iff (hids : (rules.map (·.id)).Nodup) (h : ReportsAll rules c limit live) :
    rule ∈ decidingOf fallback live ↔ rule ∈ rules ∧ rule.Decides c limit fallback := by
  rw [decidingOf_eq, mem_sortBy, Dict.mem_values_index, mem_candidates_iff h]
  intro a ha b hb hab
  exact List.inj_on_of_nodup_map hids ((mem_candidates_iff h).mp ha).1
    ((mem_candidates_iff h).mp hb).1 hab

/-- The deciding rules are in strict `sortKey` order, so none stands twice. -/
theorem pairwise_decidingOf (fallback : Dict Severity String) (live : List RuleOutcome) :
    (decidingOf fallback live).Pairwise fun a b => a.sortKey < b.sortKey := by
  have hnodup : ((decidingOf fallback live).map (·.id)).Nodup := by
    rw [decidingOf_eq]
    exact ((perm_sortBy _ _).map _).nodup_iff.mpr Dict.nodup_map_values_index
  have hids : (decidingOf fallback live).Pairwise fun a b => a.id ≠ b.id :=
    List.pairwise_map.mp hnodup
  have hsorted : (decidingOf fallback live).Pairwise fun a b => a.sortKey ≤ b.sortKey := by
    rw [decidingOf_eq]
    exact pairwise_sortBy _ _
  refine (hsorted.and hids).imp fun {a b} hab => lt_of_le_of_ne hab.1 fun heq => hab.2 ?_
  exact congrArg (fun k => (ofLex k).2) heq

/-- The deciding rules are the same when the same live rules decide. -/
theorem decidingOf_congr {c' : EvaluationContext} {fallback' : Dict Severity String}
    {live' : List RuleOutcome} (hids : (rules.map (·.id)).Nodup) (h : ReportsAll rules c limit live)
    (h' : ReportsAll rules c' limit live')
    (hdecides : ∀ rule ∈ rules, rule.Decides c limit fallback ↔ rule.Decides c' limit fallback') :
    decidingOf fallback live = decidingOf fallback' live' := by
  have hstrict := pairwise_decidingOf fallback live
  have hstrict' := pairwise_decidingOf fallback' live'
  have hperm : (decidingOf fallback live).Perm (decidingOf fallback' live') := by
    have hnodup {l : List CompiledRule} (h : l.Pairwise fun a b => a.sortKey < b.sortKey) :
        l.Nodup := h.imp fun hlt => ne_of_apply_ne CompiledRule.sortKey hlt.ne
    refine (List.perm_ext_iff_of_nodup (hnodup hstrict) (hnodup hstrict')).mpr fun rule => ?_
    rw [mem_decidingOf_iff hids h, mem_decidingOf_iff hids h']
    exact and_congr_right (hdecides rule)
  exact hperm.eq_of_pairwise (fun a b _ _ hab hba => absurd hab (lt_asymm hba)) hstrict hstrict'

end

/-! ## Rule sets -/

theorem RuleSet.mem_active_iff {ruleset : RuleSet} :
    rule ∈ ruleset.active ↔ rule ∈ ruleset.rules ∧ rule.state = .active := by
  simp [RuleSet.active]

theorem RuleSet.decide_isOk_iff (py : Python) (ruleset : RuleSet) (fallback : Dict Severity String) :
    (∃ decision, ruleset.decide py c fallback limit = .ok decision) ↔
      ∀ rule ∈ ruleset.active ++ ruleset.shadow, rule.Ends c limit := by
  rw [List.forall_mem_append, ← evaluateAll_isOk_iff py, ← evaluateAll_isOk_iff py,
    RuleSet.decide]
  cases evaluateAll py ruleset.active c limit <;> cases evaluateAll py ruleset.shadow c limit <;>
    simp [bind, Except.bind, pure, Except.pure]

theorem RuleSet.decide_spec {py : Python} {ruleset : RuleSet}
    (h : ruleset.decide py c fallback limit = .ok decision) :
    ∃ live shadow, ReportsAll ruleset.active c limit live ∧
      ReportsAll ruleset.shadow c limit shadow ∧
      decision = combineResults fallback live shadow := by
  unfold RuleSet.decide at h
  cases hlive : evaluateAll py ruleset.active c limit with
  | error e => rw [hlive] at h; cases h
  | ok live =>
    cases hshadow : evaluateAll py ruleset.shadow c limit with
    | error e => rw [hlive, hshadow] at h; cases h
    | ok shadow =>
      rw [hlive, hshadow] at h
      cases h
      exact ⟨live, shadow, evaluateAll_spec hlive, evaluateAll_spec hshadow, rfl⟩

end ComplyLayer
