import ComplyLayer.Api.Handler
import ComplyLayer.Engine.Results
import Mathlib.Order.Bounds.Basic
import Mathlib.Tactic.Linarith

/-!
# What a decision means

The specification of `decide`: the outcome is the most severe among the deciding rules, and every
other field of the decision is told by how the rules' evaluations ended. The rules outside the
active ones have no part in the outcome, and the order the set was built in has none in anything.
-/

namespace ComplyLayer

open Theory

/-! ## Severity -/

/-- Block over flag over allow. -/
def Outcome.rank : Outcome → Nat
  | allow => 0
  | flag => 1
  | block => 2

theorem Outcome.rank_injective : Function.Injective Outcome.rank := by
  intro a b h
  cases a <;> cases b <;> first | rfl | cases h

instance : LinearOrder Outcome := LinearOrder.lift' Outcome.rank Outcome.rank_injective

instance : OrderBot Outcome where
  bot := .allow
  bot_le _ := Nat.zero_le _

theorem Severity.outcome_eq_block_iff {severity : Severity} :
    severity.outcome = .block ↔ severity = .block := by
  cases severity <;> simp [Severity.outcome]

theorem Severity.outcome_eq_flag_iff {severity : Severity} :
    severity.outcome = .flag ↔ severity = .flag := by
  cases severity <;> simp [Severity.outcome]

theorem combine_eq (rules : List CompiledRule) :
    combine rules =
      if ∃ rule ∈ rules, rule.severity.outcome = .block then .block
      else if ∃ rule ∈ rules, rule.severity.outcome = .flag then .flag
      else .allow := by
  simp [combine, Severity.outcome_eq_block_iff, Severity.outcome_eq_flag_iff]

/-- Some rule calls for the outcome, if there is a rule at all. -/
theorem combine_attained {rules : List CompiledRule} (h : rules ≠ []) :
    ∃ rule ∈ rules, rule.severity.outcome = combine rules := by
  rw [combine_eq]
  split
  · assumption
  · rename_i hblock
    split
    · assumption
    · rename_i hflag
      obtain ⟨rule, hmem⟩ := List.exists_mem_of_ne_nil rules h
      refine ⟨rule, hmem, ?_⟩
      cases ho : rule.severity.outcome with
      | block => exact absurd ⟨rule, hmem, ho⟩ hblock
      | flag => exact absurd ⟨rule, hmem, ho⟩ hflag
      | allow => rfl

theorem outcome_le_combine {rules : List CompiledRule} (h : rule ∈ rules) :
    rule.severity.outcome ≤ combine rules := by
  rw [combine_eq]
  split
  · cases rule.severity.outcome <;> decide
  · rename_i hblock
    split
    · cases ho : rule.severity.outcome with
      | block => exact absurd ⟨rule, h, ho⟩ hblock
      | flag | allow => decide
    · rename_i hflag
      cases ho : rule.severity.outcome with
      | block => exact absurd ⟨rule, h, ho⟩ hblock
      | flag => exact absurd ⟨rule, h, ho⟩ hflag
      | allow => decide

/-- `_combine` is the least upper bound of what the severities call for. -/
theorem combine_isLUB (rules : List CompiledRule) :
    IsLUB {outcome | ∃ rule ∈ rules, rule.severity.outcome = outcome} (combine rules) := by
  constructor
  · rintro _ ⟨rule, hmem, rfl⟩
    exact outcome_le_combine hmem
  · intro bound hbound
    by_cases hnil : rules = []
    · subst hnil
      exact bot_le
    · obtain ⟨rule, hmem, ho⟩ := combine_attained hnil
      exact ho ▸ hbound ⟨rule, hmem, rfl⟩

/-- The deciding rule is the first whose severity calls for the outcome. -/
theorem reasonOf_spec (rules : List CompiledRule) :
    (rules = [] ∧ reasonOf rules (combine rules) = "") ∨
      ∃ before rule after, rules = before ++ rule :: after ∧
        rule.severity.outcome = combine rules ∧
        (∀ r ∈ before, r.severity.outcome ≠ combine rules) ∧
        reasonOf rules (combine rules) = rule.name := by
  by_cases hnil : rules = []
  · subst hnil
    exact .inl ⟨rfl, rfl⟩
  · right
    obtain ⟨rule, hmem, ho⟩ := combine_attained hnil
    cases hfind : decidingRule rules (combine rules) with
    | none =>
      have := List.find?_eq_none.mp hfind rule hmem
      simp [ho] at this
    | some first =>
      obtain ⟨hfirst, before, after, hsplit, hbefore⟩ := List.find?_eq_some_iff_append.mp hfind
      refine ⟨before, first, after, hsplit, by simpa using hfirst, fun r hr => ?_, ?_⟩
      · simpa using hbefore r hr
      · rw [reasonOf, hfind]

/-! ## The meaning of a decision -/

/-- A rule decides in a set of rules: it is active, and it matched or failed closed. -/
def DecidesIn (rules : List CompiledRule) (c : EvaluationContext) (limit : Nat)
    (fallback : Dict Severity String) (rule : CompiledRule) : Prop :=
  rule ∈ rules ∧ rule.state = .active ∧ rule.Decides c limit fallback

/-- An evaluated rule errored. -/
def ErrsIn (rules : List CompiledRule) (c : EvaluationContext) (limit : Nat)
    (rule : CompiledRule) : Prop :=
  rule ∈ rules ∧ (rule.state = .active ∨ rule.state = .shadow) ∧ rule.Errs c limit

/-- The meaning of a decision over a set of rules. -/
structure Decision.Means (decision : Decision) (rules : List CompiledRule) (c : EvaluationContext)
    (limit : Nat) (fallback : Dict Severity String) : Prop where
  outcome : IsLUB {o | ∃ rule, DecidesIn rules c limit fallback rule ∧ rule.severity.outcome = o}
    decision.outcome
  matched : ∀ rule, rule ∈ decision.matchedRules ↔ DecidesIn rules c limit fallback rule
  ordered : decision.matchedRules.Pairwise fun a b => a.sortKey < b.sortKey
  reason : (decision.matchedRules = [] ∧ decision.reason = "") ∨
    ∃ before rule after, decision.matchedRules = before ++ rule :: after ∧
      rule.severity.outcome = decision.outcome ∧
      (∀ r ∈ before, r.severity.outcome ≠ decision.outcome) ∧ decision.reason = rule.name
  errored : ∀ rule, (∃ r ∈ decision.erroredRules, r.rule = rule) ↔ ErrsIn rules c limit rule
  erroredOnce : (decision.erroredRules.map (·.rule)).Nodup
  degraded : decision.degraded ↔ ∃ rule, ErrsIn rules c limit rule

section
variable {py : Python} {c : EvaluationContext} {limit version : Nat}
  {fallback : Dict Severity String} {rules : List CompiledRule}

theorem RuleSet.mem_ofRules_active_iff :
    rule ∈ (ofRules version rules).active ↔ rule ∈ rules ∧ rule.state = .active := by
  simp [ofRules, active]

theorem RuleSet.mem_ofRules_shadow_iff :
    rule ∈ (ofRules version rules).shadow ↔ rule ∈ rules ∧ rule.state = .shadow := by
  simp [ofRules, shadow]

theorem RuleSet.mem_evaluated_iff :
    rule ∈ (ofRules version rules).active ++ (ofRules version rules).shadow ↔
      rule ∈ rules ∧ (rule.state = .active ∨ rule.state = .shadow) := by
  rw [List.mem_append, mem_ofRules_active_iff, mem_ofRules_shadow_iff, and_or_left]

theorem RuleSet.nodup_evaluated (h : rules.Nodup) :
    ((ofRules version rules).active ++ (ofRules version rules).shadow).Nodup := by
  have hsorted : (sortBy CompiledRule.sortKey rules).Nodup := (perm_sortBy _ _).nodup_iff.mpr h
  refine List.nodup_append.mpr ⟨hsorted.filter _, hsorted.filter _, ?_⟩
  rintro a ha b hb rfl
  have h₁ := (mem_ofRules_active_iff.mp ha).2
  rw [(mem_ofRules_shadow_iff.mp hb).2] at h₁
  cases h₁

theorem RuleSet.decide_means (hids : (rules.map (·.id)).Nodup)
    (h : (ofRules version rules).decide py c fallback limit = .ok decision) :
    decision.Means rules c limit fallback := by
  obtain ⟨live, shadow, hlive, hshadow, rfl⟩ := decide_spec h
  have hactive : ((ofRules version rules).active.map (·.id)).Nodup := by
    have hsorted := ((perm_sortBy CompiledRule.sortKey rules).map (·.id)).nodup_iff.mpr hids
    exact hsorted.sublist (List.filter_sublist.map _)
  have hmatched (rule : CompiledRule) :
      rule ∈ decidingOf fallback live ↔ DecidesIn rules c limit fallback rule := by
    rw [mem_decidingOf_iff hactive hlive, mem_ofRules_active_iff, and_assoc]
    rfl
  have hboth := hlive.append hshadow
  have herrored (rule : CompiledRule) :
      (∃ r ∈ (live ++ shadow).filter (·.errored), r.rule = rule) ↔ ErrsIn rules c limit rule := by
    rw [← List.mem_map, hboth.mem_errored_iff, mem_evaluated_iff, and_assoc]
    rfl
  refine ⟨?_, hmatched, pairwise_decidingOf fallback live, reasonOf_spec _, herrored, ?_, ?_⟩
  · have hset : {o | ∃ rule, DecidesIn rules c limit fallback rule ∧ rule.severity.outcome = o} =
        {o | ∃ rule ∈ decidingOf fallback live, rule.severity.outcome = o} := by
      simp only [hmatched]
    rw [hset]
    exact combine_isLUB _
  · refine List.Nodup.sublist (List.filter_sublist.map _) ?_
    rw [hboth.rules_eq]
    exact nodup_evaluated (List.Nodup.of_map _ hids)
  · simp only [hlive.degraded_iff hshadow, mem_evaluated_iff, and_assoc]
    rfl

/-- A rule set does not remember the order it was built in. -/
theorem RuleSet.ofRules_eq_of_perm (hids : (rules.map (·.id)).Nodup) (hperm : rules'.Perm rules) :
    ofRules version rules' = ofRules version rules := by
  have hsep : Separates CompiledRule.sortKey rules := fun a ha b hb hab =>
    List.inj_on_of_nodup_map hids ha hb (congrArg (fun k => (ofLex k).2) hab)
  have hrules := sortBy_eq_of_perm hsep hperm.symm
  simp only [ofRules, hrules]

/-- **What a decision means**, and that it does not depend on the order of the rules. -/
theorem decide_meaning (py : Python) (version : Nat) (fallback : Dict Severity String)
    (hids : (rules.map (·.id)).Nodup)
    (hends : ∀ rule ∈ rules, rule.state = .active ∨ rule.state = .shadow → rule.Ends c limit) :
    ∃ decision, decision.Means rules c limit fallback ∧ ∀ rules', rules'.Perm rules →
      (RuleSet.ofRules version rules').decide py c fallback limit = .ok decision := by
  obtain ⟨decision, hdecision⟩ :=
    (RuleSet.decide_isOk_iff py (.ofRules version rules) fallback).mpr fun rule hrule =>
      hends rule (RuleSet.mem_evaluated_iff.mp hrule).1 (RuleSet.mem_evaluated_iff.mp hrule).2
  refine ⟨decision, RuleSet.decide_means hids hdecision, fun rules' hperm => ?_⟩
  rw [RuleSet.ofRules_eq_of_perm hids hperm, hdecision]

end

def flaggedRule : CompiledRule :=
  { id := "r1", name := "Flagged", tree := .name "flagged", severity := .block
    customerMessage := "Declined." }

/-- A rule in shadow whose fact is missing. -/
def brokenRule : CompiledRule :=
  { id := "r2", name := "Broken", tree := .name "missing", severity := .flag, state := .shadow }

def flaggedContext : EvaluationContext := ⟨Dict.ofList [("flagged", .bool true)], fun _ => none⟩

theorem flaggedRule_ends : flaggedRule.Ends flaggedContext maxSteps := .inl ⟨true, 1, rfl⟩

theorem brokenRule_ends : brokenRule.Ends flaggedContext maxSteps :=
  .inr ⟨.unknownFact "missing", 1, rfl⟩

theorem decide_meaning_flagged :
    ∃ decision : Decision,
      decision.Means [flaggedRule, brokenRule] flaggedContext maxSteps ∅ ∧
        ∀ rules', rules'.Perm [flaggedRule, brokenRule] →
          (RuleSet.ofRules 1 rules').decide (.reading "" (.name "flagged")) flaggedContext ∅
            maxSteps = .ok decision :=
  decide_meaning (.reading "" (.name "flagged")) 1 ∅ (by decide) fun rule hrule _ => by
    rcases List.mem_pair.mp hrule with rfl | rfl
    · exact flaggedRule_ends
    · exact brokenRule_ends

/-! ## Shadow rules are silent -/

/-- A response shows the rules of a list and nothing of any other: its entries are theirs, its
reason is the name of one, or empty if no rule matched, and so is its customer message. -/
def ShowsOnly (active : List CompiledRule) (body : Dict String Value) : Prop :=
  ∃ shown : List CompiledRule, (∀ rule ∈ shown, rule ∈ active) ∧
    body.get? "matched_rules" = some (.list (shown.map DecisionHandler.ruleEntry)) ∧
    ((shown = [] ∧ body.get? "reason" = some (.str "")) ∨
      ∃ rule ∈ active, body.get? "reason" = some (.str rule.name)) ∧
    (∀ message, body.get? "customer_message" = some message →
      ∃ rule ∈ active, message = .str rule.customerMessage) ∧
    ∀ key, isInternal key → body.get? key = none

section
variable {py : Python} {c : EvaluationContext} {limit : Nat} {fallback : Dict Severity String}

theorem decidingRule_mem (h : decidingRule rules outcome = some rule) : rule ∈ rules :=
  List.mem_of_find?_eq_some h

theorem customerMessageOf_spec (h : customerMessageOf rules outcome ≠ "") :
    ∃ rule ∈ rules, customerMessageOf rules outcome = rule.customerMessage := by
  unfold customerMessageOf at h ⊢
  split at h
  · exact absurd rfl h
  · rename_i hblock
    rw [if_neg hblock]
    split at h
    · rename_i rule hrule
      exact ⟨rule, decidingRule_mem hrule, rfl⟩
    · exact absurd rfl h

theorem DecisionHandler.showsOnly_active {handler : DecisionHandler}
    (h : handler.decide py store transaction velocity now decisionId = .ok body) :
    ShowsOnly handler.ruleset.active (publicBody body) := by
  obtain ⟨c, decision, facts, hdecide, rfl⟩ := decide_eq_ok h
  obtain ⟨live, shadow, hlive, -, rfl⟩ := RuleSet.decide_spec hdecide
  have hmem : ∀ rule ∈ decidingOf store.fallbackPolicy live, rule ∈ handler.ruleset.active :=
    fun rule hrule => (mem_of_mem_decidingOf hlive hrule).1
  have hkey (key : String) (hk : isInternal key = false) (b : Dict String Value) :
      (publicBody b).get? key = b.get? key := by
    rw [get?_publicBody, hk, if_neg Bool.false_ne_true]
  refine ⟨decidingOf store.fallbackPolicy live, hmem, ?_, ?_, fun message hmessage => ?_,
    fun key hinternal => ?_⟩
  · rw [hkey _ rfl, bodyOf_matchedRules]
    rfl
  · rw [hkey _ rfl, bodyOf_reason]
    rcases reasonOf_spec (decidingOf store.fallbackPolicy live) with
      ⟨hnil, hreason⟩ | ⟨before, rule, after, hsplit, -, -, hreason⟩
    · exact .inl ⟨hnil, congrArg (fun s => some (Value.str s)) hreason⟩
    · have hrule : rule ∈ decidingOf store.fallbackPolicy live := by
        rw [hsplit]
        exact List.mem_append_right _ List.mem_cons_self
      exact .inr ⟨rule, hmem rule hrule, congrArg (fun s => some (Value.str s)) hreason⟩
  · rw [hkey _ rfl, bodyOf_customerMessage] at hmessage
    split at hmessage
    · rename_i hcond
      obtain ⟨rule, hrule, heq⟩ := customerMessageOf_spec hcond.2
      cases hmessage
      exact ⟨rule, hmem rule hrule, congrArg Value.str heq⟩
    · cases hmessage
  · rw [get?_publicBody, if_pos hinternal]

/-- The active rules of a built set depend on the active rules it was built from alone. -/
theorem RuleSet.active_eq {rules₁ rules₂ : List CompiledRule}
    (hids : ((rules₁.filter (·.state = .active)).map (·.id)).Nodup)
    (hactive : (rules₁.filter (·.state = .active)).Perm (rules₂.filter (·.state = .active))) :
    (ofRules v₁ rules₁).active = (ofRules v₂ rules₂).active := by
  have hsorted (rules : List CompiledRule) :
      ((sortBy CompiledRule.sortKey rules).filter (·.state = .active)).Perm
        (rules.filter (·.state = .active)) :=
    (perm_sortBy _ _).filter _
  have hsep : Separates CompiledRule.sortKey (rules₁.filter (·.state = .active)) :=
    fun a ha b hb hab => List.inj_on_of_nodup_map hids ha hb (congrArg (fun k => (ofLex k).2) hab)
  exact eq_of_perm_of_pairwise (hsep.perm (hsorted rules₁))
    (((hsorted rules₁).trans hactive).trans (hsorted rules₂).symm)
    ((pairwise_sortBy _ _).filter _) ((pairwise_sortBy _ _).filter _)

/-- What a decision says to the caller comes from the live results alone. -/
theorem RuleSet.decide_live {ruleset₁ ruleset₂ : RuleSet} (hactive : ruleset₁.active = ruleset₂.active)
    (h₁ : ruleset₁.decide py c fallback limit = .ok d₁)
    (h₂ : ruleset₂.decide py c fallback limit = .ok d₂) :
    d₁.outcome = d₂.outcome ∧ d₁.matchedRules = d₂.matchedRules ∧ d₁.reason = d₂.reason ∧
      d₁.customerMessage = d₂.customerMessage := by
  unfold RuleSet.decide at h₁ h₂
  rw [hactive] at h₁
  cases hlive : evaluateAll py ruleset₂.active c limit with
  | error e => rw [hlive] at h₁; cases h₁
  | ok live =>
    rw [hlive] at h₁ h₂
    cases hs₁ : evaluateAll py ruleset₁.shadow c limit with
    | error e => rw [hs₁] at h₁; cases h₁
    | ok shadow₁ =>
      cases hs₂ : evaluateAll py ruleset₂.shadow c limit with
      | error e => rw [hs₂] at h₂; cases h₂
      | ok shadow₂ =>
        rw [hs₁] at h₁
        rw [hs₂] at h₂
        cases h₁
        cases h₂
        exact ⟨rfl, rfl, rfl, rfl⟩

/-- **Shadow rules are silent.** Two sets with the same active rules give the same outcome, matched
rules, reason and customer message, whatever else they hold; and a response made with either shows
active rules only. -/
theorem shadow_silent (py : Python) (v₁ v₂ : Nat) (fallback : Dict Severity String)
    {rules₁ rules₂ : List CompiledRule}
    (hids : ((rules₁.filter (·.state = .active)).map (·.id)).Nodup)
    (hactive : (rules₁.filter (·.state = .active)).Perm (rules₂.filter (·.state = .active)))
    (hends : ∀ rule ∈ rules₁ ++ rules₂, rule.state = .active ∨ rule.state = .shadow →
      rule.Ends c limit) :
    (∃ d₁ d₂, (RuleSet.ofRules v₁ rules₁).decide py c fallback limit = .ok d₁ ∧
      (RuleSet.ofRules v₂ rules₂).decide py c fallback limit = .ok d₂ ∧
      d₁.outcome = d₂.outcome ∧ d₁.matchedRules = d₂.matchedRules ∧ d₁.reason = d₂.reason ∧
        d₁.customerMessage = d₂.customerMessage) ∧
    ∀ (handler : DecisionHandler) (store : StoreView) (transaction : Transaction)
      (velocity : Gathered) (now : Instant) (decisionId : String) (body : Dict String Value),
      handler.ruleset = .ofRules v₁ rules₁ ∨ handler.ruleset = .ofRules v₂ rules₂ →
      handler.decide py store transaction velocity now decisionId = .ok body →
      ShowsOnly (rules₁.filter (·.state = .active)) (publicBody body) := by
  have hdecides (v : Nat) (rules : List CompiledRule) (hsub : ∀ rule ∈ rules, rule ∈ rules₁ ++ rules₂) :
      ∃ d, (RuleSet.ofRules v rules).decide py c fallback limit = .ok d :=
    (RuleSet.decide_isOk_iff py (.ofRules v rules) fallback).mpr fun rule hrule =>
      hends rule (hsub rule (RuleSet.mem_evaluated_iff.mp hrule).1)
        (RuleSet.mem_evaluated_iff.mp hrule).2
  constructor
  · obtain ⟨d₁, h₁⟩ := hdecides v₁ rules₁ fun rule h => List.mem_append_left _ h
    obtain ⟨d₂, h₂⟩ := hdecides v₂ rules₂ fun rule h => List.mem_append_right _ h
    exact ⟨d₁, d₂, h₁, h₂, RuleSet.decide_live (RuleSet.active_eq hids hactive) h₁ h₂⟩
  · intro handler store transaction velocity now decisionId body hruleset hbody
    have hshown : ∀ rule ∈ handler.ruleset.active, rule ∈ rules₁.filter (·.state = .active) := by
      intro rule hrule
      rcases hruleset with h | h
      · rw [h, RuleSet.mem_ofRules_active_iff] at hrule
        simpa using hrule
      · rw [h, RuleSet.mem_ofRules_active_iff] at hrule
        exact hactive.mem_iff.mpr (by simpa using hrule)
    obtain ⟨shown, hmem, hentries, hreason, hmessage, hinternal⟩ :=
      DecisionHandler.showsOnly_active hbody
    refine ⟨shown, fun rule h => hshown rule (hmem rule h), hentries, ?_, fun m hm => ?_, hinternal⟩
    · exact hreason.imp_right fun ⟨rule, hrule, heq⟩ => ⟨rule, hshown rule hrule, heq⟩
    · obtain ⟨rule, hrule, heq⟩ := hmessage m hm
      exact ⟨rule, hshown rule hrule, heq⟩

end

theorem shadow_silent_flagged :
    ∃ d₁ d₂, (RuleSet.ofRules 1 [flaggedRule, brokenRule]).decide (.reading "" (.name "flagged"))
        flaggedContext ∅ maxSteps = .ok d₁ ∧
      (RuleSet.ofRules 2 [flaggedRule]).decide (.reading "" (.name "flagged")) flaggedContext ∅
        maxSteps = .ok d₂ ∧ d₁.outcome = d₂.outcome ∧ d₁.matchedRules = d₂.matchedRules ∧
      d₁.reason = d₂.reason ∧ d₁.customerMessage = d₂.customerMessage := by
  refine (shadow_silent (.reading "" (.name "flagged")) 1 2 ∅ (by decide) ?_ ?_).1
  · exact List.Perm.refl [flaggedRule]
  · intro rule hrule _
    simp only [List.cons_append, List.nil_append, List.mem_cons, List.not_mem_nil, or_false] at hrule
    rcases hrule with rfl | rfl | rfl
    · exact flaggedRule_ends
    · exact brokenRule_ends
    · exact flaggedRule_ends

end ComplyLayer
