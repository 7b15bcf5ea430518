import ComplyLayer.Engine.Results
import ComplyLayer.Verify.StoredFacts

/-!
# A decision and its replay

A replay has the stored facts, no functions and the default policy. A list of the request is a tuple
in it, a rule that comes to a call fails in it, and a rule that fails decides by the default of its
severity. So a decision by rules that read no such list and come to no call is reproduced exactly
when the tenant's policy closes the severities of the live rules that failed as the default does
(`replay_reproduces`).
-/

namespace ComplyLayer

open Theory

/-- Evaluating the rule on the facts comes to a call, which fails where there are no functions. -/
def CompiledRule.Calls (rule : CompiledRule) (facts : Dict String Value) (limit : Nat) : Prop :=
  ∃ name k, (Interpreter.run ⟨facts, fun _ => none⟩ limit rule.tree).run 0 =
    (.error (.evaluation (.notAvailable name)), k)

/-- The replay has what the rule needs: it comes to no call, and reads no array of the request. -/
structure CompiledRule.Replays (rule : CompiledRule) (transaction : Transaction)
    (velocity : Gathered) (lists : Dict String (List Value)) : Prop where
  calls : ¬ rule.Calls (buildFacts transaction velocity lists) maxSteps
  arrays : ∀ id, (Node.name id).In rule.tree → ¬ ReadsArray transaction velocity lists id

/-- The policy closes the severity of each live rule that fails exactly where the default one
does. -/
def RuleSet.ClosesByDefault (ruleset : RuleSet) (fallback : Dict Severity String)
    (c : EvaluationContext) : Prop :=
  ∀ rule ∈ ruleset.active, rule.Errs c maxSteps →
    ((effectivePolicy fallback).get? rule.severity = some "closed" ↔ rule.severity = .block)

/-- The outcome, the matched rules, the shadow matches, the reason and the degraded flag of a row
are those of a decision. -/
structure DecisionRow.Shows (row : DecisionRow) (decision : Decision) : Prop where
  outcome : row.outcome = .str decision.outcome.str
  matchedRules : row.matchedRules = .list (decision.matchedRules.map DecisionHandler.ruleEntry)
  shadowMatches : row.shadowMatches = .list (decision.shadowMatches.map fun rule => .str rule.id)
  reason : row.reason = .str decision.reason
  degraded : row.degraded = .bool decision.degraded

/-! ## Evaluation without functions -/

namespace Interpreter

/-- The exception of a call where there are no functions. -/
def AtCall (e : Raised) : Prop := ∃ name, e = .evaluation (.notAvailable name)

variable {facts : Dict String Value}

/-- The functions are looked at by a call alone. -/
theorem coupled_functions (functions : String → Option Function) (n : Node) :
    (sideBySide AtCall).Coupled ⟨facts, fun _ => none⟩ ⟨facts, functions⟩ n := by
  cases n with
  | constant value => exact rfl
  | name id => exact sideBySide_refl _
  | call func args keywords =>
    intro n
    cases func with
    | name id => exact .inl ⟨_, n, ⟨id, rfl⟩, rfl⟩
    | _ => exact .inr (.inr ⟨_, n, rfl, rfl⟩)
  | _ => trivial

theorem run_functions (functions : String → Option Function) (limit : Nat) (body : Node) :
    SideBySide AtCall Eq (run ⟨facts, fun _ => none⟩ limit body)
      (run ⟨facts, functions⟩ limit body) :=
  run_related (sideBySide AtCall) limit body fun m _ => coupled_functions functions m

end Interpreter

/-- A rule that comes to no call does the same with and without functions. -/
theorem CompiledRule.run_of_not_calls {rule : CompiledRule} {c : EvaluationContext} {limit : Nat}
    (h : ¬ rule.Calls c.facts limit) :
    (Interpreter.run c limit rule.tree).run 0 =
      (Interpreter.run ⟨c.facts, fun _ => none⟩ limit rule.tree).run 0 := by
  rcases (Interpreter.run_functions c.functions limit rule.tree).run_eq 0 with
    ⟨e, k, ⟨name, rfl⟩, hrun⟩ | heq
  · exact absurd ⟨name, k, hrun⟩ h
  · exact heq

theorem effectivePolicy_empty {severity : Severity} :
    (effectivePolicy ∅).get? severity = some "closed" ↔ severity = .block := by
  cases severity <;> decide

/-! ## What is stored -/

/-- What the body of a decision holds of what is stored of it. -/
theorem bodyOf_lookups (py : Python) (handler : DecisionHandler) (decision : Decision)
    (facts : Dict String Value) (now : Instant) (decisionId : String) :
    (handler.bodyOf py decision facts now decisionId).get? "outcome" =
        some (.str decision.outcome.str) ∧
      (handler.bodyOf py decision facts now decisionId).get? "_shadow_matches" =
        some (.list (decision.shadowMatches.map fun rule => .str rule.id)) ∧
      (handler.bodyOf py decision facts now decisionId).get? "degraded" =
        some (.bool decision.degraded) ∧
      (handler.bodyOf py decision facts now decisionId).get? "_resolved_facts" =
        some (.dict (serialisable facts)) := by
  unfold DecisionHandler.bodyOf
  refine ⟨?_, ?_, ?_, Dict.get?_set_self ..⟩
  · split <;> rfl
  · rw [Dict.get?_set_of_ne (by decide), Dict.get?_set_of_ne (by decide), Dict.get?_set_self]
  · split <;> rfl

/-- The row that is stored of a decision shows it, and holds its facts. -/
theorem shows_of_rowsOf {py : Python} {hash : HashCustomerRef} {handler : DecisionHandler}
    {latency : Value} (h : DatabaseStore.rowsOf py (handler.recordArguments hash
      ((handler.bodyOf py decision facts now decisionId).set "latency_ms" latency)
      transaction idempotencyKey) = some (row, record)) :
    row.Shows decision ∧ row.resolvedFacts = .dict (serialisable facts) := by
  obtain ⟨houtcome, hshadow, hdegraded, hfacts⟩ :=
    bodyOf_lookups py handler decision facts now decisionId
  have hkept (key : String) (hkey : key ≠ "latency_ms") :
      ((handler.bodyOf py decision facts now decisionId).set "latency_ms" latency).get? key =
        (handler.bodyOf py decision facts now decisionId).get? key :=
    Dict.get?_set_of_ne hkey _ _
  unfold DatabaseStore.rowsOf DecisionHandler.recordArguments at h
  dsimp only at h
  rw [hkept "outcome" (by decide), hkept "matched_rules" (by decide),
    hkept "reason" (by decide), hkept "degraded" (by decide),
    hkept "_shadow_matches" (by decide), hkept "_resolved_facts" (by decide),
    houtcome, hshadow, hdegraded, hfacts, DecisionHandler.bodyOf_reason,
    DecisionHandler.bodyOf_matchedRules] at h
  split at h
  · simp only [bind, Option.bind_eq_some_iff, pure, Option.some.injEq, Prod.mk.injEq] at h
    obtain ⟨moment, -, _, rfl, _, rfl, _, rfl, _, rfl, rfl, -⟩ := h
    exact ⟨⟨rfl, rfl, rfl, rfl, rfl⟩, rfl⟩
  · cases h

/-! ## Two decisions of one rule set -/

/-- Rules that are listed alike, by entries that tell their ids, are the same. -/
theorem mem_iff_of_map_eq (rule : CompiledRule) {rules l m : List CompiledRule}
    {f : CompiledRule → Value}
    (hids : (rules.map (·.id)).Nodup) (hf : ∀ a b, f a = f b → a.id = b.id)
    (hl : ∀ a ∈ l, a ∈ rules) (hm : ∀ a ∈ m, a ∈ rules) (h : l.map f = m.map f) :
    rule ∈ l ↔ rule ∈ m := by
  have hsub {l m : List CompiledRule} (hl : ∀ a ∈ l, a ∈ rules) (hm : ∀ a ∈ m, a ∈ rules)
      (h : l.map f = m.map f) (hmem : rule ∈ l) : rule ∈ m := by
    obtain ⟨other, hother, heq⟩ := List.mem_map.mp (h ▸ List.mem_map_of_mem hmem)
    have hsame :=
      List.inj_on_of_nodup_map hids (hm other hother) (hl rule hmem) (hf other rule heq)
    exact hsame ▸ hother
  exact ⟨hsub hl hm h, hsub hm hl h.symm⟩

theorem DecisionHandler.ruleEntry_id {a b : CompiledRule} (h : ruleEntry a = ruleEntry b) :
    a.id = b.id := by
  simp only [ruleEntry, Value.dict.injEq, List.cons.injEq, Prod.mk.injEq, Value.str.injEq] at h
  exact h.1.2

/-- A row that shows one decision of a rule set shows another exactly when the same live rules
decide, the same shadow rules match, and some rule errs in both or in neither. -/
theorem RuleSet.shows_iff {py : Python} {ruleset : RuleSet} {row : DecisionRow}
    (hids : (ruleset.rules.map (·.id)).Nodup) (h : ruleset.decide py c fallback limit = .ok d)
    (h' : ruleset.decide py c' fallback' limit = .ok d') (hrow : row.Shows d) :
    row.Shows d' ↔
      (∀ rule ∈ ruleset.active, rule.Decides c limit fallback ↔ rule.Decides c' limit fallback') ∧
      (∀ rule ∈ ruleset.shadow, rule.Matches c limit ↔ rule.Matches c' limit) ∧
      ((∃ rule ∈ ruleset.active ++ ruleset.shadow, rule.Errs c limit) ↔
        ∃ rule ∈ ruleset.active ++ ruleset.shadow, rule.Errs c' limit) := by
  obtain ⟨live, shadow, hlive, hshadow, rfl⟩ := decide_spec h
  obtain ⟨live', shadow', hlive', hshadow', rfl⟩ := decide_spec h'
  have hactive : (ruleset.active.map (·.id)).Nodup := hids.sublist (List.filter_sublist.map _)
  have hinactive : (ruleset.shadow.map (·.id)).Nodup := hids.sublist (List.filter_sublist.map _)
  rw [← hlive.degraded_iff hshadow fallback, ← hlive'.degraded_iff hshadow' fallback']
  constructor
  · intro hrow'
    refine ⟨fun rule hrule => ?_, fun rule hrule => ?_, ?_⟩
    · have hmatched := Value.list.inj (hrow.matchedRules.symm.trans hrow'.matchedRules)
      have hmem := mem_iff_of_map_eq rule hactive
        (fun _ _ => DecisionHandler.ruleEntry_id) (fun _ ha => (mem_of_mem_decidingOf hlive ha).1)
        (fun _ ha => (mem_of_mem_decidingOf hlive' ha).1) hmatched
      have hdecides : rule ∈ decidingOf fallback live ↔ rule ∈ decidingOf fallback' live' := hmem
      rw [mem_decidingOf_iff hactive hlive, mem_decidingOf_iff hactive hlive'] at hdecides
      simpa only [hrule, true_and] using hdecides
    · have hmatched := Value.list.inj (hrow.shadowMatches.symm.trans hrow'.shadowMatches)
      have hmem := mem_iff_of_map_eq rule hinactive (fun _ _ => Value.str.inj)
        (fun _ ha => (hshadow.mem_matched_iff.mp ha).1)
        (fun _ ha => (hshadow'.mem_matched_iff.mp ha).1) hmatched
      have hmatches : rule ∈ (shadow.filter (·.matched)).map (·.rule) ↔
          rule ∈ (shadow'.filter (·.matched)).map (·.rule) := hmem
      rw [hshadow.mem_matched_iff, hshadow'.mem_matched_iff] at hmatches
      simpa only [hrule, true_and] using hmatches
    · rw [Value.bool.inj (hrow.degraded.symm.trans hrow'.degraded)]
  · rintro ⟨hdecides, hmatches, hdegraded⟩
    have hdeciding := decidingOf_congr hactive hlive hlive' hdecides
    have hmatched := hshadow.matched_congr hshadow' hmatches
    refine ⟨?_, ?_, ?_, ?_, ?_⟩
    · rw [hrow.outcome]
      simp only [combineResults, hdeciding]
    · rw [hrow.matchedRules]
      simp only [combineResults, hdeciding]
    · rw [hrow.shadowMatches]
      simp only [combineResults, hmatched]
    · rw [hrow.reason]
      simp only [combineResults, hdeciding]
    · rw [hrow.degraded, Bool.eq_iff_iff.mpr hdegraded]

/-! ## The replay -/

section
variable {rule : CompiledRule} {c c' : EvaluationContext} {limit : Nat}

theorem CompiledRule.matches_congr (h : (Interpreter.run c limit rule.tree).run 0 =
    (Interpreter.run c' limit rule.tree).run 0) : rule.Matches c limit ↔ rule.Matches c' limit := by
  rw [Matches, Matches, h]

theorem CompiledRule.errs_congr (h : (Interpreter.run c limit rule.tree).run 0 =
    (Interpreter.run c' limit rule.tree).run 0) : rule.Errs c limit ↔ rule.Errs c' limit := by
  rw [Errs, Errs, h]

theorem CompiledRule.ends_congr (h : (Interpreter.run c limit rule.tree).run 0 =
    (Interpreter.run c' limit rule.tree).run 0) : rule.Ends c limit ↔ rule.Ends c' limit := by
  rw [Ends, Ends, Errs, Errs, h]

/-- A rule decides under two policies alike, where it fails only if both close its severity or
neither does. -/
theorem CompiledRule.decides_iff_decides {fallback fallback' : Dict Severity String} :
    (rule.Decides c limit fallback ↔ rule.Decides c limit fallback') ↔
      (rule.Errs c limit → ((effectivePolicy fallback).get? rule.severity = some "closed" ↔
        (effectivePolicy fallback').get? rule.severity = some "closed")) := by
  rw [Decides, Decides]
  by_cases herrs : rule.Errs c limit
  · simp only [herrs.not_matches, herrs, false_or, true_and, true_imp_iff]
  · simp only [herrs, false_and, false_imp_iff]

end

/-- Where every rule ends as it did, a row shows the decision under the default policy exactly when
the policy it was made under closes what failed as the default one does. -/
theorem RuleSet.shows_default_iff {py : Python} {ruleset : RuleSet} {row : DecisionRow}
    {decided stored : EvaluationContext} (hids : (ruleset.rules.map (·.id)).Nodup)
    (horiginal : ruleset.decide py decided fallback maxSteps = .ok d) (hshows : row.Shows d)
    (hsame : ∀ rule ∈ ruleset.active ++ ruleset.shadow,
      (Interpreter.run stored maxSteps rule.tree).run 0 =
        (Interpreter.run decided maxSteps rule.tree).run 0) :
    (∃ decision, ruleset.decide py stored ∅ maxSteps = .ok decision ∧ row.Shows decision) ↔
      ruleset.ClosesByDefault fallback decided := by
  have hends := (decide_isOk_iff py ruleset fallback).mp ⟨d, horiginal⟩
  obtain ⟨decision, hreplay⟩ := (decide_isOk_iff py ruleset ∅).mpr fun rule hrule =>
    (CompiledRule.ends_congr (hsame rule hrule)).mpr (hends rule hrule)
  have hdecides (rule : CompiledRule) (hrule : rule ∈ ruleset.active) :
      (rule.Decides decided maxSteps fallback ↔ rule.Decides stored maxSteps ∅) ↔
        (rule.Errs decided maxSteps →
          ((effectivePolicy fallback).get? rule.severity = some "closed" ↔
            rule.severity = .block)) := by
    have hrun := hsame rule (List.mem_append_left _ hrule)
    have hstored : rule.Decides stored maxSteps ∅ ↔ rule.Decides decided maxSteps ∅ := by
      rw [CompiledRule.Decides, CompiledRule.Decides, CompiledRule.matches_congr hrun,
        CompiledRule.errs_congr hrun]
    rw [hstored, CompiledRule.decides_iff_decides, effectivePolicy_empty]
  constructor
  · rintro ⟨decision', hreplay', hshows'⟩ rule hrule
    obtain ⟨hlive, -, -⟩ := (shows_iff hids horiginal hreplay' hshows).mp hshows'
    exact (hdecides rule hrule).mp (hlive rule hrule)
  · intro hcloses
    refine ⟨decision, hreplay, (shows_iff hids horiginal hreplay hshows).mpr ⟨?_, ?_, ?_⟩⟩
    · exact fun rule hrule => (hdecides rule hrule).mpr (hcloses rule hrule)
    · intro rule hrule
      exact (CompiledRule.matches_congr (hsame rule (List.mem_append_right _ hrule))).symm
    · refine exists_congr fun rule => and_congr_right fun hrule => ?_
      exact (CompiledRule.errs_congr (hsame rule hrule)).symm

/-- **A replay gives what was stored** of a decision by rules that read no array of the request and
come to no call, exactly when the tenant's policy closes the severities of the live rules that
failed as the default one does. -/
theorem replay_reproduces {py : Python} {hash : HashCustomerRef} {handler : DecisionHandler}
    {store : StoreView} {velocity : Gathered} {now : Instant} {latency : Value}
    (hids : (handler.ruleset.rules.map (·.id)).Nodup)
    (hjson : (Value.dict payload.entries).isNative = true)
    (hparse : parseTransaction py payload = .ok transaction)
    (hlists : ∀ values ∈ store.namedLists.values, (Value.list values).isNative = true)
    (hdecide : handler.decide py store transaction velocity now decisionId = .ok body)
    (hstored : DatabaseStore.rowsOf py (handler.recordArguments hash
      (body.set "latency_ms" latency) transaction idempotencyKey) = some (row, record))
    (hkept : ∀ rule ∈ handler.ruleset.active ++ handler.ruleset.shadow,
      rule.Replays transaction velocity store.namedLists) :
    (∃ decision, replayDecision py row handler.ruleset = .ok decision ∧ row.Shows decision) ↔
      handler.ruleset.ClosesByDefault store.fallbackPolicy
        ⟨buildFacts transaction velocity store.namedLists, build py velocity.provider now⟩ := by
  obtain ⟨original, horiginal, rfl⟩ := DecisionHandler.decide_eq_ok_iff.mp hdecide
  obtain ⟨hshows, hresolved⟩ := shows_of_rowsOf hstored
  refine RuleSet.shows_default_iff hids horiginal hshows fun rule hrule => ?_
  calc (Interpreter.run (contextOf row fun _ => none) maxSteps rule.tree).run 0
    _ = (Interpreter.run ⟨buildFacts transaction velocity store.namedLists, fun _ => none⟩ maxSteps
          rule.tree).run 0 :=
        run_stored hjson hparse hlists hresolved _ (hkept rule hrule).arrays
    _ = _ := (CompiledRule.run_of_not_calls (c := ⟨_, _⟩) (hkept rule hrule).calls).symm

/-! Two validated rules on one transaction: one without a call, one with. -/

def replayPayload : Dict String Value :=
  .ofList [("transaction_ref", .str "tx_1"), ("customer_ref", .str "c_1"),
    ("amount_minor", .int 700), ("currency", .str "NGN")]

def replayTransaction : Transaction :=
  { transactionRef := "tx_1", customerRef := "c_1", amountMinor := 700, currency := "NGN" }

def flagging (tree : Node) : CompiledRule :=
  { id := "rul_1", name := "Limit", tree := tree, severity := .flag }

def flaggingHandler (tree : Node) : DecisionHandler := ⟨"tnt_1", .ofRules 1 [flagging tree], "salt"⟩

/-- What `flaggingHandler` decides, and how it is stored. -/
def StoredFlag (py : Python) (tree : Node) (body : Dict String Value) (row : DecisionRow)
    (record : IdempotencyRecord) : Prop :=
  (flaggingHandler tree).decide py {} replayTransaction (.window { now := 0 }) ⟨0, 0⟩ "dec_1" =
      .ok body ∧
    DatabaseStore.rowsOf py ((flaggingHandler tree).recordArguments (fun _ _ => "c_1")
      (body.set "latency_ms" (.int 0)) replayTransaction "key_1") = some (row, record)

def flaggedRow (py : Python) (tree : Node) : Option (DecisionRow × IdempotencyRecord) :=
  ((flaggingHandler tree).decide py {} replayTransaction (.window { now := 0 }) ⟨0, 0⟩
    "dec_1").toOption.bind fun body =>
      DatabaseStore.rowsOf py ((flaggingHandler tree).recordArguments (fun _ _ => "c_1")
        (body.set "latency_ms" (.int 0)) replayTransaction "key_1")

theorem storedFlag_of_flaggedRow {py : Python} (h : flaggedRow py tree = some (row, record)) :
    ∃ body, StoredFlag py tree body row record := by
  obtain ⟨body, hbody, hrow⟩ := Option.bind_eq_some_iff.mp h
  refine ⟨body, ?_, hrow⟩
  cases hdecide : (flaggingHandler tree).decide py {} replayTransaction (.window { now := 0 })
      ⟨0, 0⟩ "dec_1" with
  | error e =>
    rw [hdecide] at hbody
    cases hbody
  | ok decided =>
    rw [hdecide] at hbody
    cases hbody
    rfl

def plainLimit : Node := .compare (.name "amount_minor") [(.gt, .constant (.int 50))]

def absLimit : Node :=
  .compare (.call (.name "abs") [.name "amount_minor"] []) [(.gt, .constant (.int 50))]

theorem replay_reproduces_plain : ∃ body row record decision,
    parseTransaction (.reading "amount_minor > 50" plainLimit) replayPayload =
        .ok replayTransaction ∧
      StoredFlag (.reading "amount_minor > 50" plainLimit) plainLimit body row record ∧
      replayDecision (.reading "amount_minor > 50" plainLimit) row
        (flaggingHandler plainLimit).ruleset = .ok decision ∧ row.Shows decision := by
  obtain ⟨⟨row, record⟩, hrow⟩ := Option.isSome_iff_exists.mp
    (show (flaggedRow (.reading "amount_minor > 50" plainLimit) plainLimit).isSome by
      decide +kernel)
  obtain ⟨body, hdecide, hstored⟩ := storedFlag_of_flaggedRow hrow
  have hparse : parseTransaction (.reading "amount_minor > 50" plainLimit) replayPayload =
      .ok replayTransaction := rfl
  have hrules : ∀ rule ∈ (flaggingHandler plainLimit).ruleset.active ++
      (flaggingHandler plainLimit).ruleset.shadow, rule = flagging plainLimit :=
    fun rule hrule => List.mem_singleton.mp hrule
  have hcloses : (flaggingHandler plainLimit).ruleset.ClosesByDefault ∅
      ⟨buildFacts replayTransaction (.window { now := 0 }) ∅, build
        (.reading "amount_minor > 50" plainLimit) (Gathered.window { now := 0 }).provider ⟨0, 0⟩⟩ := by
    intro rule hrule herrs
    rw [hrules rule (List.mem_append_left _ hrule)] at herrs
    exact absurd ⟨3, rfl⟩ herrs.not_matches
  have hnames : ∀ entry ∈ sourceFacts replayTransaction (.window { now := 0 }),
      entry.2.typeName ≠ "list" := by decide
  have hreplay := replay_reproduces (by decide) rfl hparse (fun _ h => absurd h List.not_mem_nil)
    hdecide hstored fun rule hrule => ?_
  · obtain ⟨decision, hreplay, hshows⟩ := hreplay.mpr hcloses
    exact ⟨body, row, record, decision, hparse, ⟨hdecide, hstored⟩, hreplay, hshows⟩
  · rw [hrules rule hrule]
    refine ⟨?_, ?_⟩
    · rintro ⟨name, k, hcall⟩
      cases hcall
    · rintro id - ⟨-, xs, hmem⟩
      exact hnames _ hmem rfl

/-- Without functions `abs` is not there, and a flag rule that fails is open. -/
theorem abs_not_replayed :
    validateSource (.reading "abs(amount_minor) > 50" absLimit) "abs(amount_minor) > 50" =
        .ok absLimit ∧
      parseTransaction (.reading "abs(amount_minor) > 50" absLimit) replayPayload =
        .ok replayTransaction ∧
      ∃ body row record,
        StoredFlag (.reading "abs(amount_minor) > 50" absLimit) absLimit body row record ∧
        ¬ ∃ decision, replayDecision (.reading "abs(amount_minor) > 50" absLimit) row
          (flaggingHandler absLimit).ruleset = .ok decision ∧ row.Shows decision := by
  refine ⟨by rfl, rfl, ?_⟩
  have heval : ((flaggedRow (.reading "abs(amount_minor) > 50" absLimit) absLimit).bind
      fun rows => (replayDecision (.reading "abs(amount_minor) > 50" absLimit) rows.1
        (flaggingHandler absLimit).ruleset).toOption.map fun decision =>
          (rows.1.outcome.pyEq (.str "flag"), decision.outcome)) = some (true, .allow) := by
    decide +kernel
  obtain ⟨⟨row, record⟩, hrow, hmap⟩ := Option.bind_eq_some_iff.mp heval
  obtain ⟨decision, hdecision, hpair⟩ := Option.map_eq_some_iff.mp hmap
  obtain ⟨body, hstored⟩ := storedFlag_of_flaggedRow hrow
  refine ⟨body, row, record, hstored, ?_⟩
  rintro ⟨decision', hreplay, hshows⟩
  rw [hreplay] at hdecision
  cases hdecision
  have houtcome : decision.outcome = .allow := congrArg Prod.snd hpair
  have hflag : row.outcome.pyEq (.str "flag") = true := congrArg Prod.fst hpair
  rw [hshows.outcome, houtcome] at hflag
  cases hflag

end ComplyLayer
