import ComplyLayer.Theory.Outcomes
import ComplyLayer.Verify.DecisionMeaning
import ComplyLayer.Verify.Replay

/-!
# What the divergence report predicts

Had a shadow rule been active, a decision would have been the more severe of what it was and what
the rule calls for where it decides. The report counts the decisions in which the rule matched and
the outcome was no block, which is not the same for a rule that does not block, or one that fails
closed.
-/

namespace ComplyLayer

open Theory

/-- The rule set with one of its rules active, and everything else unchanged. -/
def RuleSet.activate (ruleset : RuleSet) (ruleId : String) : RuleSet where
  version := ruleset.version
  rules := ruleset.rules.map fun rule =>
    if rule.id = ruleId then { rule with state := .active } else rule
  sorted := by
    refine List.pairwise_map.mpr (ruleset.sorted.imp fun {a b} hab => ?_)
    have hkey (rule : CompiledRule) :
        (if rule.id = ruleId then { rule with state := .active } else rule).sortKey =
          rule.sortKey := by
      split <;> rfl
    rw [hkey, hkey]
    exact hab

/-- A decision of the rule set, under the policy it was made with, and the row it is stored as. -/
structure StoredDecision (py : Python) (ruleset : RuleSet) (limit : Nat) where
  context : EvaluationContext
  fallback : Dict Severity String
  decision : Decision
  row : DecisionRow
  decided : ruleset.decide py context fallback limit = .ok decision
  shows : row.Shows decision

/-- The outcome the decision would have had with the rule active. -/
def StoredDecision.whenActive {py : Python} {ruleset : RuleSet}
    (stored : StoredDecision py ruleset limit) (ruleId : String) : Option Outcome :=
  ((ruleset.activate ruleId).decide py stored.context stored.fallback limit).toOption.map (·.outcome)

/-- The rule errs, and what it controls is not let through. -/
def CompiledRule.FailsClosed (rule : CompiledRule) (c : EvaluationContext) (limit : Nat)
    (fallback : Dict Severity String) : Prop :=
  rule.Errs c limit ∧ (effectivePolicy fallback).get? rule.severity = some "closed"

/-- When the report of a shadow rule is right. -/
structure RuleSet.Predicts {py : Python} {ruleset : RuleSet} (rule : CompiledRule)
    (decisions : List (StoredDecision py ruleset limit)) : Prop where
  /-- A rule that blocks failed closed in no decision but blocks, and if it matched at all then not
  in blocks only. -/
  block : rule.severity = .block →
    (∀ d ∈ decisions, d.decision.outcome ≠ .block → ¬ rule.FailsClosed d.context limit d.fallback) ∧
    ((∃ d ∈ decisions, rule.Matches d.context limit) →
      ∃ d ∈ decisions, d.decision.outcome ≠ .block ∧ rule.Matches d.context limit)
  /-- A rule that flags matched in blocks only, and in one if and only if it failed closed in a
  decision that allowed. -/
  flag : rule.severity = .flag →
    (∀ d ∈ decisions, d.decision.outcome ≠ .block → ¬ rule.Matches d.context limit) ∧
    ((∃ d ∈ decisions, rule.Matches d.context limit) ↔
      ∃ d ∈ decisions, d.decision.outcome = .allow ∧ rule.FailsClosed d.context limit d.fallback)
  /-- A rule that notes did not match. -/
  note : rule.severity = .allowWithNote → ∀ d ∈ decisions, ¬ rule.Matches d.context limit

section
variable {py : Python} {ruleset : RuleSet} {rule : CompiledRule} {limit : Nat}

/-! ## The outcome with the rule active -/

/-- The outcome is the least upper bound of what the active rules that decide call for. -/
theorem RuleSet.outcome_isLUB (hids : (ruleset.rules.map (·.id)).Nodup)
    (h : ruleset.decide py c fallback limit = .ok decision) :
    IsLUB {o | ∃ rule ∈ ruleset.active, rule.Decides c limit fallback ∧ rule.severity.outcome = o}
      decision.outcome := by
  obtain ⟨live, shadow, hlive, -, rfl⟩ := decide_spec h
  have hactive : (ruleset.active.map (·.id)).Nodup := hids.sublist (List.filter_sublist.map _)
  have hset : {o | ∃ rule ∈ ruleset.active, rule.Decides c limit fallback ∧
      rule.severity.outcome = o} = {o | ∃ rule ∈ decidingOf fallback live,
        rule.severity.outcome = o} := by
    simp only [mem_decidingOf_iff hactive hlive, and_assoc]
  rw [hset]
  exact combine_isLUB _

/-- With a shadow rule active, the active rules are those that were and this one. -/
theorem RuleSet.mem_active_activate (hids : (ruleset.rules.map (·.id)).Nodup)
    (hmem : rule ∈ ruleset.rules) (hstate : rule.state = .shadow) :
    other ∈ (ruleset.activate rule.id).active ↔
      other ∈ ruleset.active ∨ other = { rule with state := .active } := by
  rw [mem_active_iff, mem_active_iff, activate, List.mem_map]
  constructor
  · rintro ⟨⟨r, hr, rfl⟩, hactive⟩
    split
    · rename_i hid
      exact .inr (by rw [List.inj_on_of_nodup_map hids hr hmem hid])
    · rename_i hid
      rw [if_neg hid] at hactive
      exact .inl ⟨hr, hactive⟩
  · rintro (⟨hother, hactive⟩ | rfl)
    · refine ⟨⟨other, hother, if_neg fun hid => ?_⟩, hactive⟩
      rw [List.inj_on_of_nodup_map hids hother hmem hid, hstate] at hactive
      cases hactive
    · exact ⟨⟨rule, hmem, if_pos rfl⟩, rfl⟩

/-- The rule set with a shadow rule active evaluates the rules it evaluated. -/
theorem RuleSet.decide_activate (hids : (ruleset.rules.map (·.id)).Nodup)
    (hmem : rule ∈ ruleset.rules) (hstate : rule.state = .shadow)
    (h : ruleset.decide py c fallback limit = .ok decision) :
    ∃ decision', (ruleset.activate rule.id).decide py c fallback limit = .ok decision' := by
  have hends := (decide_isOk_iff py ruleset fallback).mp ⟨decision, h⟩
  refine (decide_isOk_iff py _ fallback).mpr fun other hother => ?_
  rcases List.mem_append.mp hother with hactive | hshadow
  · rcases (mem_active_activate hids hmem hstate).mp hactive with hactive | rfl
    · exact hends other (List.mem_append_left _ hactive)
    · have hrule : rule ∈ ruleset.shadow := List.mem_filter.mpr ⟨hmem, by simpa using hstate⟩
      exact hends rule (List.mem_append_right _ hrule)
  · obtain ⟨hmap, hstate'⟩ := List.mem_filter.mp hshadow
    obtain ⟨r, hr, rfl⟩ := List.mem_map.mp hmap
    by_cases hid : r.id = rule.id
    · rw [if_pos hid] at hstate'
      cases of_decide_eq_true hstate'
    · rw [if_neg hid] at hstate' ⊢
      exact hends r (List.mem_append_right _ (List.mem_filter.mpr ⟨hr, hstate'⟩))

namespace StoredDecision

variable {stored : StoredDecision py ruleset limit}

/-- What the active rules call for, and the rule where it decides. -/
theorem exists_whenActive (hids : (ruleset.rules.map (·.id)).Nodup) (hmem : rule ∈ ruleset.rules)
    (hstate : rule.state = .shadow) : ∃ outcome, stored.whenActive rule.id = some outcome ∧
      IsLUB ({o | ∃ r ∈ ruleset.active, r.Decides stored.context limit stored.fallback ∧
        r.severity.outcome = o} ∪
        {o | rule.Decides stored.context limit stored.fallback ∧ rule.severity.outcome = o})
        outcome := by
  obtain ⟨decision, hdecide⟩ := RuleSet.decide_activate hids hmem hstate stored.decided
  have hids' : ((ruleset.activate rule.id).rules.map (·.id)).Nodup := by
    have hsame : (ruleset.activate rule.id).rules.map (·.id) = ruleset.rules.map (·.id) := by
      rw [RuleSet.activate, List.map_map]
      refine List.map_congr_left fun r _ => ?_
      rw [Function.comp_apply]
      split <;> rfl
    rw [hsame]
    exact hids
  have hlub := RuleSet.outcome_isLUB hids' hdecide
  refine ⟨decision.outcome, ?_, ?_⟩
  · rw [whenActive, hdecide]
    rfl
  · have hset : {o | ∃ r ∈ (ruleset.activate rule.id).active,
          r.Decides stored.context limit stored.fallback ∧ r.severity.outcome = o} =
        {o | ∃ r ∈ ruleset.active, r.Decides stored.context limit stored.fallback ∧
          r.severity.outcome = o} ∪
        {o | rule.Decides stored.context limit stored.fallback ∧ rule.severity.outcome = o} := by
      ext o
      constructor
      · rintro ⟨r, hr, hdecides, ho⟩
        rcases (RuleSet.mem_active_activate hids hmem hstate).mp hr with hr | rfl
        · exact .inl ⟨r, hr, hdecides, ho⟩
        · exact .inr ⟨hdecides, ho⟩
      · rintro (⟨r, hr, hdecides, ho⟩ | ⟨hdecides, ho⟩)
        · exact ⟨r, (RuleSet.mem_active_activate hids hmem hstate).mpr (.inl hr), hdecides, ho⟩
        · exact ⟨_, (RuleSet.mem_active_activate hids hmem hstate).mpr (.inr rfl), hdecides, ho⟩
    rw [← hset]
    exact hlub

theorem whenActive_of_decides (hids : (ruleset.rules.map (·.id)).Nodup)
    (hmem : rule ∈ ruleset.rules) (hstate : rule.state = .shadow)
    (h : rule.Decides stored.context limit stored.fallback) :
    stored.whenActive rule.id = some (max stored.decision.outcome rule.severity.outcome) := by
  obtain ⟨outcome, hwhen, hlub⟩ := exists_whenActive hids hmem hstate
  have hsingle : {o | rule.Decides stored.context limit stored.fallback ∧
      rule.severity.outcome = o} = {rule.severity.outcome} := by
    ext o
    simp [h, eq_comm]
  rw [hsingle] at hlub
  have hmax := (RuleSet.outcome_isLUB hids stored.decided).union
    (isLUB_singleton (a := rule.severity.outcome))
  rw [hwhen, hlub.unique hmax]

theorem whenActive_of_not_decides (hids : (ruleset.rules.map (·.id)).Nodup)
    (hmem : rule ∈ ruleset.rules) (hstate : rule.state = .shadow)
    (h : ¬ rule.Decides stored.context limit stored.fallback) :
    stored.whenActive rule.id = some stored.decision.outcome := by
  obtain ⟨outcome, hwhen, hlub⟩ := exists_whenActive hids hmem hstate
  have hempty : {o | rule.Decides stored.context limit stored.fallback ∧
      rule.severity.outcome = o} = ∅ :=
    Set.eq_empty_of_forall_notMem fun o ho => h ho.1
  rw [hempty, Set.union_empty] at hlub
  rw [hwhen, hlub.unique (RuleSet.outcome_isLUB hids stored.decided)]

theorem matchedInShadow_iff (hids : (ruleset.rules.map (·.id)).Nodup)
    (hmem : rule ∈ ruleset.rules) (hstate : rule.state = .shadow) :
    stored.row.matchedInShadow rule.id ↔ rule.Matches stored.context limit := by
  obtain ⟨live, shadow, -, hshadow, hdecision⟩ := RuleSet.decide_spec stored.decided
  have hrule : rule ∈ ruleset.shadow := List.mem_filter.mpr ⟨hmem, by simpa using hstate⟩
  have hmatched : rule ∈ stored.decision.shadowMatches ↔ rule.Matches stored.context limit := by
    rw [hdecision]
    exact hshadow.mem_matched_iff.trans (and_iff_right hrule)
  have hsub : ∀ r ∈ stored.decision.shadowMatches, r ∈ ruleset.rules := by
    intro r hr
    rw [hdecision] at hr
    exact (List.mem_filter.mp (hshadow.mem_matched_iff.mp hr).1).1
  rw [DecisionRow.matchedInShadow, stored.shows.shadowMatches, ← hmatched]
  simp only [List.any_map, List.any_eq_true, Function.comp_apply, Value.pyEq, beq_iff_eq]
  constructor
  · rintro ⟨r, hr, hid⟩
    rwa [← List.inj_on_of_nodup_map hids (hsub r hr) hmem hid]
  · intro hr
    exact ⟨rule, hr, rfl⟩

theorem notBlocked_iff : stored.row.notBlocked ↔ stored.decision.outcome ≠ .block := by
  rw [DecisionRow.notBlocked, stored.shows.outcome]
  cases stored.decision.outcome <;> decide

/-- The rule makes a block of a decision that was none where it decides and blocks. -/
theorem whenActive_eq_block_iff (hids : (ruleset.rules.map (·.id)).Nodup)
    (hmem : rule ∈ ruleset.rules) (hstate : rule.state = .shadow)
    (hopen : stored.decision.outcome ≠ .block) : stored.whenActive rule.id = some .block ↔
      rule.Decides stored.context limit stored.fallback ∧ rule.severity = .block := by
  by_cases h : rule.Decides stored.context limit stored.fallback
  · rw [whenActive_of_decides hids hmem hstate h, Option.some.injEq]
    cases rule.severity <;> cases ho : stored.decision.outcome <;> simp_all <;> decide
  · rw [whenActive_of_not_decides hids hmem hstate h, Option.some.injEq]
    simp [h, hopen]

/-- The rule changes a decision where it decides and calls for something more severe. -/
theorem whenActive_eq_outcome_iff (hids : (ruleset.rules.map (·.id)).Nodup)
    (hmem : rule ∈ ruleset.rules) (hstate : rule.state = .shadow) :
    stored.whenActive rule.id = some stored.decision.outcome ↔
      ¬ (rule.Decides stored.context limit stored.fallback ∧
        stored.decision.outcome < rule.severity.outcome) := by
  by_cases h : rule.Decides stored.context limit stored.fallback
  · rw [whenActive_of_decides hids hmem hstate h, Option.some.injEq, max_eq_left_iff]
    simp [h]
  · rw [whenActive_of_not_decides hids hmem hstate h]
    simp [h]

end StoredDecision

/-! ## The report -/

variable {decisions : List (StoredDecision py ruleset limit)}

theorem wouldHaveBlocked_iff (hids : (ruleset.rules.map (·.id)).Nodup)
    (hmem : rule ∈ ruleset.rules) (hstate : rule.state = .shadow) (str : Int → String)
    (sampleLimit : Nat) :
    (divergence str (decisions.map (·.row)) rule.id sampleLimit).wouldHaveBlocked =
        decisions.countP (fun d =>
          decide (d.decision.outcome ≠ .block ∧ d.whenActive rule.id = some .block)) ↔
      (rule.severity = .block → ∀ d ∈ decisions, d.decision.outcome ≠ .block →
        ¬ rule.FailsClosed d.context limit d.fallback) ∧
      (rule.severity ≠ .block → ∀ d ∈ decisions, d.decision.outcome ≠ .block →
        ¬ rule.Matches d.context limit) := by
  have hreported (d : StoredDecision py ruleset limit) :
      ((fun decision : DecisionRow => decision.matchedInShadow rule.id && decision.notBlocked) ∘
        (·.row)) d = true ↔ rule.Matches d.context limit ∧ d.decision.outcome ≠ .block := by
    rw [Function.comp_apply, Bool.and_eq_true, d.matchedInShadow_iff hids hmem hstate,
      d.notBlocked_iff]
  have hwould (d : StoredDecision py ruleset limit) :
      decide (d.decision.outcome ≠ .block ∧ d.whenActive rule.id = some .block) = true ↔
        d.decision.outcome ≠ .block ∧ rule.Decides d.context limit d.fallback ∧
          rule.severity = .block := by
    rw [decide_eq_true_iff]
    exact and_congr_right fun hopen => d.whenActive_eq_block_iff hids hmem hstate hopen
  rw [divergence_wouldHaveBlocked, List.countP_map]
  by_cases hblock : rule.severity = .block
  · rw [countP_eq_iff_of_imp fun d _ h => (hwould d).mpr
      ⟨((hreported d).mp h).2, .inl ((hreported d).mp h).1, hblock⟩]
    simp only [hreported, hwould, hblock, and_true, true_implies, ne_eq, not_true_eq_false,
      false_implies]
    refine forall₂_congr fun d _ => ⟨fun h hopen hclosed => ?_, fun h hdecides => ?_⟩
    · exact hclosed.1.not_matches (h ⟨hopen, .inr hclosed⟩).1
    · exact ⟨hdecides.2.resolve_right (h hdecides.1), hdecides.1⟩
  · rw [eq_comm, countP_eq_iff_of_imp fun d _ h => absurd ((hwould d).mp h).2.2 hblock]
    simp only [hreported, hwould, hblock, and_false, imp_false, false_implies, ne_eq,
      not_false_eq_true, true_implies, true_and]
    exact forall₂_congr fun d _ => ⟨fun h hopen hmatches => h ⟨hmatches, hopen⟩,
      fun h hboth => h hboth.2 hboth.1⟩

theorem agreesAlways_iff (hids : (ruleset.rules.map (·.id)).Nodup)
    (hmem : rule ∈ ruleset.rules) (hstate : rule.state = .shadow) (str : Int → String)
    (sampleLimit : Nat) :
    ((divergence str (decisions.map (·.row)) rule.id sampleLimit).agreesAlways ↔
        ∀ d ∈ decisions, d.whenActive rule.id = some d.decision.outcome) ↔
      ((∃ d ∈ decisions, rule.Matches d.context limit) ↔
        ∃ d ∈ decisions, rule.Decides d.context limit d.fallback ∧
          d.decision.outcome < rule.severity.outcome) := by
  have hagrees : (divergence str (decisions.map (·.row)) rule.id sampleLimit).agreesAlways ↔
      ¬ ∃ d ∈ decisions, rule.Matches d.context limit := by
    rw [divergence_agreesAlways_iff, List.forall_mem_map]
    push Not
    refine forall₂_congr fun d _ => ?_
    rw [← d.matchedInShadow_iff hids hmem hstate, Bool.not_eq_true]
  have hsame : (∀ d ∈ decisions, d.whenActive rule.id = some d.decision.outcome) ↔
      ¬ ∃ d ∈ decisions, rule.Decides d.context limit d.fallback ∧
        d.decision.outcome < rule.severity.outcome := by
    push Not
    refine forall₂_congr fun d _ => ?_
    rw [d.whenActive_eq_outcome_iff hids hmem hstate]
    push Not
    rfl
  rw [hagrees, hsame, not_iff_not]

/-- **What the report predicts.** The report of a shadow rule is right about the blocks and about
whether it agrees, exactly when the rule ended in the decisions as `Predicts` says. -/
theorem divergence_predicts_iff (hids : (ruleset.rules.map (·.id)).Nodup)
    (hmem : rule ∈ ruleset.rules) (hstate : rule.state = .shadow) (str : Int → String)
    (sampleLimit : Nat) :
    ((divergence str (decisions.map (·.row)) rule.id sampleLimit).wouldHaveBlocked =
        decisions.countP (fun d =>
          decide (d.decision.outcome ≠ .block ∧ d.whenActive rule.id = some .block)) ∧
      ((divergence str (decisions.map (·.row)) rule.id sampleLimit).agreesAlways ↔
        ∀ d ∈ decisions, d.whenActive rule.id = some d.decision.outcome)) ↔
      RuleSet.Predicts rule decisions := by
  rw [wouldHaveBlocked_iff hids hmem hstate, agreesAlways_iff hids hmem hstate]
  cases hseverity : rule.severity with
  | block =>
    have hlt (o : Outcome) : o < Severity.block.outcome ↔ o ≠ .block := by cases o <;> decide
    simp only [hlt, true_implies, ne_eq, not_true_eq_false, false_implies, and_true]
    constructor
    · rintro ⟨hclosed, hchanges⟩
      refine ⟨fun _ => ⟨hclosed, fun hmatched => ?_⟩, fun h => ?_, fun h => ?_⟩
      · obtain ⟨d, hd, hdecides, hopen⟩ := hchanges.mp hmatched
        exact ⟨d, hd, hopen, hdecides.resolve_right (hclosed d hd hopen)⟩
      · cases hseverity.symm.trans h
      · cases hseverity.symm.trans h
    · intro h
      obtain ⟨hclosed, hmatched⟩ := h.block hseverity
      refine ⟨hclosed, fun hm => ?_, ?_⟩
      · obtain ⟨d, hd, hopen, hmatches⟩ := hmatched hm
        exact ⟨d, hd, .inl hmatches, hopen⟩
      · rintro ⟨d, hd, hdecides, hopen⟩
        exact ⟨d, hd, hdecides.resolve_right (hclosed d hd hopen)⟩
  | flag =>
    have hlt (o : Outcome) : o < Severity.flag.outcome ↔ o = .allow := by cases o <;> decide
    have hopen {o : Outcome} (h : o = .allow) : o ≠ .block := by
      rw [h]
      decide
    simp only [hlt, reduceCtorEq, false_implies, true_and, ne_eq, not_false_eq_true, true_implies]
    constructor
    · rintro ⟨hmatches, hchanges⟩
      refine ⟨fun h => ?_, fun _ => ⟨hmatches, hchanges.trans ?_⟩, fun h => ?_⟩
      · cases hseverity.symm.trans h
      · refine exists_congr fun d => and_congr_right fun hd => ?_
        rw [and_comm]
        exact and_congr_right fun ho => or_iff_right (hmatches d hd (hopen ho))
      · cases hseverity.symm.trans h
    · intro h
      obtain ⟨hmatches, hchanges⟩ := h.flag hseverity
      refine ⟨hmatches, hchanges.trans ?_⟩
      refine exists_congr fun d => and_congr_right fun hd => ?_
      rw [and_comm (a := rule.Decides ..)]
      exact and_congr_right fun ho => (or_iff_right (hmatches d hd (hopen ho))).symm
  | allowWithNote =>
    have hlt (o : Outcome) : ¬ o < Severity.allowWithNote.outcome := by cases o <;> decide
    simp only [hlt, and_false, exists_false, iff_false, reduceCtorEq, false_implies, true_and,
      ne_eq, not_false_eq_true, true_implies]
    constructor
    · rintro ⟨-, hnone⟩
      refine ⟨fun h => ?_, fun h => ?_, fun _ d hd hmatches => hnone ⟨d, hd, hmatches⟩⟩
      · cases hseverity.symm.trans h
      · cases hseverity.symm.trans h
    · intro h
      have hnone := h.note hseverity
      exact ⟨fun d hd _ => hnone d hd, fun ⟨d, hd, hmatches⟩ => hnone d hd hmatches⟩

end

/-! A rule in shadow that matches a decision that allowed, as a block and as a flag. -/

def shadowLimit (severity : Severity) : CompiledRule :=
  { id := "rul_1", name := "Limit", tree := plainLimit, severity := severity, state := .shadow }

def largeAmount : EvaluationContext :=
  ⟨Dict.ofList [("amount_minor", .int 700)], fun _ => none⟩

/-- A row that shows the decision. -/
def rowShowing (decision : Decision) : DecisionRow where
  id := "dec_1"
  decidedAt := 0
  tenantId := "tnt_1"
  idempotencyKey := "key_1"
  rulesetVersion := 1
  transactionRef := "tx_1"
  customerRefHash := "c_1"
  amountMinor := 700
  currency := "NGN"
  context := ∅
  resolvedFacts := .dict []
  outcome := .str decision.outcome.str
  matchedRules := .list (decision.matchedRules.map DecisionHandler.ruleEntry)
  shadowMatches := .list (decision.shadowMatches.map fun rule => .str rule.id)
  reason := .str decision.reason
  degraded := .bool decision.degraded
  erroredRules := .list []
  latencyMs := .int 0

theorem shadowLimit_matches (severity : Severity) :
    (shadowLimit severity).Matches largeAmount maxSteps := ⟨3, rfl⟩

theorem exists_shadowed (severity : Severity) :
    ∃ stored : StoredDecision (.reading "" plainLimit) (.ofRules 1 [shadowLimit severity]) maxSteps,
      stored.context = largeAmount ∧ stored.decision.outcome = .allow := by
  have hdecide : ((RuleSet.ofRules 1 [shadowLimit severity]).decide (.reading "" plainLimit)
      largeAmount ∅ maxSteps).toOption.map (·.outcome) = some .allow := by
    cases severity <;> decide +kernel
  obtain ⟨decision, hdecision, houtcome⟩ := Option.map_eq_some_iff.mp hdecide
  exact ⟨⟨largeAmount, ∅, decision, rowShowing decision, toOption_eq_some.mp hdecision,
    ⟨rfl, rfl, rfl, rfl, rfl⟩⟩, rfl, houtcome⟩

theorem divergence_predicts_block :
    ∃ stored : StoredDecision (.reading "" plainLimit) (.ofRules 1 [shadowLimit .block]) maxSteps,
      (divergence (fun _ => "") [stored.row] "rul_1" 20).wouldHaveBlocked =
        [stored].countP fun d =>
          decide (d.decision.outcome ≠ .block ∧ d.whenActive "rul_1" = some .block) := by
  obtain ⟨stored, hcontext, houtcome⟩ := exists_shadowed .block
  have hopen : stored.decision.outcome ≠ .block := by
    rw [houtcome]
    decide
  have hmatches : (shadowLimit .block).Matches stored.context maxSteps :=
    hcontext ▸ shadowLimit_matches .block
  have hpredicts : RuleSet.Predicts (shadowLimit .block) [stored] := by
    refine ⟨fun _ => ⟨fun d hd _ hclosed => ?_, fun _ => ?_⟩, fun h => ?_, fun h => ?_⟩
    · rw [List.mem_singleton.mp hd] at hclosed
      exact hclosed.1.not_matches hmatches
    · exact ⟨stored, List.mem_singleton_self _, hopen, hmatches⟩
    · cases h
    · cases h
  have hmem : shadowLimit .block ∈ (RuleSet.ofRules 1 [shadowLimit .block]).rules :=
    List.mem_singleton_self _
  exact ⟨stored, ((divergence_predicts_iff (by decide) hmem rfl (fun _ => "") 20).mpr hpredicts).1⟩

/-- A rule that flags is reported to block. -/
theorem flag_reported_as_block :
    ∃ stored : StoredDecision (.reading "" plainLimit) (.ofRules 1 [shadowLimit .flag]) maxSteps,
      (divergence (fun _ => "") [stored.row] "rul_1").wouldHaveBlocked = 1 ∧
      ([stored].countP fun d =>
        decide (d.decision.outcome ≠ .block ∧ d.whenActive "rul_1" = some .block)) = 0 := by
  obtain ⟨stored, hcontext, houtcome⟩ := exists_shadowed .flag
  have hids : ((RuleSet.ofRules 1 [shadowLimit .flag]).rules.map (·.id)).Nodup := by decide
  have hmem : shadowLimit .flag ∈ (RuleSet.ofRules 1 [shadowLimit .flag]).rules :=
    List.mem_singleton_self _
  have hmatches : (shadowLimit .flag).Matches stored.context maxSteps :=
    hcontext ▸ shadowLimit_matches .flag
  have hreported : stored.row.matchedInShadow "rul_1" = true :=
    (stored.matchedInShadow_iff hids hmem rfl).mpr hmatches
  have hopen : stored.row.notBlocked = true := stored.notBlocked_iff.mpr (by rw [houtcome]; decide)
  refine ⟨stored, ?_, ?_⟩
  · rw [divergence_wouldHaveBlocked, List.countP_singleton, hreported, hopen]
    rfl
  · have hid : (shadowLimit .flag).id = "rul_1" := rfl
    have hflag : (shadowLimit .flag).severity.outcome = .flag := rfl
    have hwhen := stored.whenActive_of_decides hids hmem rfl (.inl hmatches)
    rw [hid, hflag] at hwhen
    rw [List.countP_singleton, hwhen, houtcome]
    rfl

end ComplyLayer
