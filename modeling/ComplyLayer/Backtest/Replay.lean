import ComplyLayer.Api.Store

/-!
# Deciding a stored decision again

`replay_decision` of `backtest/replay.py`. What it reads is the row of a decision: the facts went
through JSON, and of the function table and the fallback policy they were decided with nothing was
stored.
-/

namespace ComplyLayer

open Theory

mutual
/-- A value that was encoded as JSON and decoded. JSON has arrays and no tuples. -/
def Value.viaJson : Value → Value
  | .list xs | .tuple xs => .list (viaJsonAll xs)
  | .dict entries => .dict (viaJsonEntries entries)
  | value => value

def Value.viaJsonAll : List Value → List Value
  | [] => []
  | x :: xs => x.viaJson :: viaJsonAll xs

def Value.viaJsonEntries : List (String × Value) → List (String × Value)
  | [] => []
  | (key, x) :: entries => (key, x.viaJson) :: viaJsonEntries entries
end

/-- The interpreter wants tuples. -/
def Value.listAsTuple : Value → Value
  | .list xs => .tuple xs
  | value => value

/-- The facts of `_context`: `dict(decision.resolved_facts or {})`, with tuples for its lists. -/
def DecisionRow.facts (decision : DecisionRow) : Dict String Value :=
  match decision.resolvedFacts.viaJson with
  | .dict entries => (Dict.ofList entries).map Value.listAsTuple
  | _ => ∅

/-- `_context`. -/
def contextOf (decision : DecisionRow) (functions : String → Option Function) :
    EvaluationContext :=
  ⟨decision.facts, functions⟩

/-- `replay_decision`, with the function table it is called with: the empty one by default. -/
def replayDecision (py : Python) (decision : DecisionRow) (ruleset : RuleSet)
    (functions : String → Option Function := fun _ => none) : Except Raised Decision :=
  ruleset.decide py (contextOf decision functions) ∅ maxSteps

/-! ## The divergence report -/

/-- One decision the rule matched, for the drill-down. -/
structure Sample where
  decisionId : String
  transactionRef : String
  amountMinor : Int
  currency : String
  decidedAt : String
  originalOutcome : Value

/-- Where a shadow rule disagreed with the live rules. -/
structure Divergence where
  decisions : Nat := 0
  shadowMatches : Nat := 0
  wouldHaveBlocked : Nat := 0
  samples : List Sample := []

def Divergence.agreesAlways (report : Divergence) : Bool := report.shadowMatches == 0

/-- `rule_id in (decision.shadow_matches or [])`. The column holds the ids as a list. -/
def DecisionRow.matchedInShadow (decision : DecisionRow) (ruleId : String) : Bool :=
  match decision.shadowMatches with
  | .list ids => ids.any fun id => id.pyEq (.str ruleId)
  | _ => false

/-- `decision.outcome != "block"`. -/
def DecisionRow.notBlocked (decision : DecisionRow) : Bool :=
  !decision.outcome.pyEq (.str "block")

/-- `str` is that of a moment. -/
def DecisionRow.sample (str : Int → String) (decision : DecisionRow) : Sample where
  decisionId := decision.id
  transactionRef := decision.transactionRef
  amountMinor := decision.amountMinor
  currency := decision.currency
  decidedAt := str decision.decidedAt
  originalOutcome := decision.outcome

/-- A turn of the loop of `divergence`. -/
def Divergence.count (str : Int → String) (ruleId : String) (sampleLimit : Nat)
    (report : Divergence) (decision : DecisionRow) : Divergence :=
  let report := { report with decisions := report.decisions + 1 }
  if decision.matchedInShadow ruleId then
    let report := { report with shadowMatches := report.shadowMatches + 1 }
    if decision.notBlocked then
      { report with
        wouldHaveBlocked := report.wouldHaveBlocked + 1
        samples :=
          if report.samples.length < sampleLimit then report.samples ++ [decision.sample str]
          else report.samples }
    else report
  else report

/-- `divergence`. -/
def divergence (str : Int → String) (decisions : List DecisionRow) (ruleId : String)
    (sampleLimit : Nat := 20) : Divergence :=
  decisions.foldl (Divergence.count str ruleId sampleLimit) {}

/-- Of two conditions of which one implies the other, the same number is counted where the other
implies it too. -/
theorem countP_eq_iff_of_imp {α : Type} {p q : α → Bool} {l : List α}
    (h : ∀ a ∈ l, p a → q a) : l.countP p = l.countP q ↔ ∀ a ∈ l, q a → p a := by
  induction l with
  | nil => simp
  | cons a l ih =>
    obtain ⟨ha, hl⟩ := List.forall_mem_cons.mp h
    have hle : l.countP p ≤ l.countP q := List.countP_mono_left hl
    rw [List.forall_mem_cons, ← ih hl, List.countP_cons, List.countP_cons]
    cases hp : p a <;> cases hq : q a <;> simp_all
    omega

section
variable {str : Int → String} {ruleId : String} {sampleLimit : Nat}

/-- The loop counts what it has seen on top of what it started from. -/
theorem foldl_count (report : Divergence) (decisions : List DecisionRow) :
    (decisions.foldl (Divergence.count str ruleId sampleLimit) report).shadowMatches =
        report.shadowMatches + decisions.countP (·.matchedInShadow ruleId) ∧
      (decisions.foldl (Divergence.count str ruleId sampleLimit) report).wouldHaveBlocked =
        report.wouldHaveBlocked +
          decisions.countP fun decision => decision.matchedInShadow ruleId && decision.notBlocked := by
  induction decisions generalizing report with
  | nil => exact ⟨rfl, rfl⟩
  | cons decision decisions ih =>
    obtain ⟨hmatches, hblocked⟩ := ih (report.count str ruleId sampleLimit decision)
    rw [List.foldl_cons, hmatches, hblocked, List.countP_cons, List.countP_cons, Divergence.count]
    cases decision.matchedInShadow ruleId with
    | false => exact ⟨rfl, rfl⟩
    | true =>
      cases decision.notBlocked with
      | false =>
        simp only [if_true, Bool.true_and, Bool.false_eq_true, if_false]
        omega
      | true =>
        simp only [if_true, Bool.true_and]
        omega

theorem divergence_wouldHaveBlocked (decisions : List DecisionRow) :
    (divergence str decisions ruleId sampleLimit).wouldHaveBlocked =
      decisions.countP fun decision => decision.matchedInShadow ruleId && decision.notBlocked :=
  (foldl_count {} decisions).2.trans (Nat.zero_add _)

theorem divergence_agreesAlways_iff {decisions : List DecisionRow} :
    (divergence str decisions ruleId sampleLimit).agreesAlways ↔
      ∀ decision ∈ decisions, decision.matchedInShadow ruleId = false := by
  have hcount : (divergence str decisions ruleId sampleLimit).shadowMatches =
      decisions.countP (·.matchedInShadow ruleId) :=
    (foldl_count {} decisions).1.trans (Nat.zero_add _)
  rw [Divergence.agreesAlways, hcount, beq_iff_eq, List.countP_eq_zero]
  simp

end

end ComplyLayer
