import ComplyLayer.Dsl.Interpreter
import ComplyLayer.Theory.SortByKey
import Mathlib.Algebra.Ring.Nat
import Mathlib.Data.Prod.Lex
import Mathlib.Data.Int.Order.Basic

/-!
# Turning a rule set and a transaction into one decision

`engine/evaluation.py`.
-/

namespace ComplyLayer

open Theory

inductive Severity where
  | block | flag | allowWithNote
  deriving DecidableEq, Repr

inductive Outcome where
  | allow | flag | block
  deriving DecidableEq, Repr

inductive State where
  | draft | shadow | active | archived
  deriving DecidableEq, Repr

def Severity.str : Severity → String
  | block => "block"
  | flag => "flag"
  | allowWithNote => "allow_with_note"

def Outcome.str : Outcome → String
  | allow => "allow"
  | flag => "flag"
  | block => "block"

/-- Fail-closed for block, fail-open for flag. -/
def defaultFallback : Dict Severity String :=
  Dict.ofList [(.block, "closed"), (.flag, "open"), (.allowWithNote, "open")]

/-- `_SEVERITY_OUTCOME`. -/
def Severity.outcome : Severity → Outcome
  | block => .block
  | flag => .flag
  | allowWithNote => .allow

/-- A rule as the cache holds it. -/
structure CompiledRule where
  id : String
  name : String
  tree : Node
  severity : Severity
  state : State := .active
  priority : Int := 0
  regulatoryReference : String := ""
  customerMessage : String := ""

def CompiledRule.sortKey (rule : CompiledRule) : Int ×ₗ String := toLex (rule.priority, rule.id)

structure RuleOutcome where
  rule : CompiledRule
  matched : Bool
  error : String := ""
  steps : Nat := 0

def RuleOutcome.errored (result : RuleOutcome) : Bool := result.error != ""

structure Decision where
  outcome : Outcome
  matchedRules : List CompiledRule := []
  shadowMatches : List CompiledRule := []
  erroredRules : List RuleOutcome := []
  evaluatedRules : Nat := 0
  degraded : Bool := false
  reason : String := ""
  customerMessage : String := ""
  steps : Nat := 0

/-- An immutable snapshot, whose rules are in `sortKey` order. -/
structure RuleSet where
  version : Nat
  rules : List CompiledRule
  sorted : rules.Pairwise fun a b => a.sortKey ≤ b.sortKey

namespace RuleSet

/-- `RuleSet(version, rules)`: `__post_init__` sorts what it is given. -/
def ofRules (version : Nat) (rules : List CompiledRule) : RuleSet where
  version := version
  rules := sortBy CompiledRule.sortKey rules
  sorted := pairwise_sortBy CompiledRule.sortKey rules

def active (ruleset : RuleSet) : List CompiledRule := ruleset.rules.filter (·.state = .active)

def shadow (ruleset : RuleSet) : List CompiledRule := ruleset.rules.filter (·.state = .shadow)

end RuleSet

/-- `_evaluate_one`. An exception other than `RuleEvaluationError` is not caught. -/
def evaluateOne (py : Python) (rule : CompiledRule) (context : EvaluationContext)
    (limit : Nat) : Except Raised RuleOutcome :=
  match (Interpreter.run context limit rule.tree).run 0 with
  | (.ok matched, steps) => .ok { rule := rule, matched := matched, steps := steps }
  | (.error (.evaluation e), steps) =>
    .ok { rule := rule, matched := false, error := e.reason py, steps := steps }
  | (.error (.escaped e), _) => .error (.escaped e)

/-- `_combine`: the most severe match wins. -/
def combine (matched : List CompiledRule) : Outcome :=
  if matched.any (·.severity = .block) then .block
  else if matched.any (·.severity = .flag) then .flag
  else .allow

/-- `_deciding_rule`. -/
def decidingRule (matched : List CompiledRule) (outcome : Outcome) : Option CompiledRule :=
  matched.find? (·.severity.outcome = outcome)

/-- `_reason`. -/
def reasonOf (matched : List CompiledRule) (outcome : Outcome) : String :=
  match decidingRule matched outcome with
  | some rule => rule.name
  | none => ""

/-- `_customer_message`. -/
def customerMessageOf (matched : List CompiledRule) (outcome : Outcome) : String :=
  if outcome ≠ .block then ""
  else
    match decidingRule matched outcome with
    | some rule => rule.customerMessage
    | none => ""

/-- `{**DEFAULT_FALLBACK, **(fallback or {})}`. -/
def effectivePolicy (fallback : Dict Severity String) : Dict Severity String :=
  defaultFallback.update fallback.entries

/-- The severity fails closed under the policy. -/
def failsClosed (fallback : Dict Severity String) (severity : Severity) : Bool :=
  (effectivePolicy fallback).get? severity == some "closed"

/-- Evaluate rules in order. -/
def evaluateAll (py : Python) (rules : List CompiledRule) (context : EvaluationContext)
    (limit : Nat) : Except Raised (List RuleOutcome) :=
  rules.mapM fun rule => evaluateOne py rule context limit

/-- The live rules that decide: those that matched, and those that failed closed, once an id. -/
def decidingOf (fallback : Dict Severity String) (live : List RuleOutcome) : List CompiledRule :=
  let matched := (live.filter (·.matched)).map (·.rule)
  let failedClosed := (live.filter fun r => r.errored && failsClosed fallback r.rule.severity).map (·.rule)
  let byId := Dict.ofList ((matched ++ failedClosed).map fun rule => (rule.id, rule))
  sortBy CompiledRule.sortKey byId.values

/-- The `Decision` two lists of results combine into. -/
def combineResults (fallback : Dict Severity String) (live shadow : List RuleOutcome) : Decision :=
  let errored := (live ++ shadow).filter (·.errored)
  let deciding := decidingOf fallback live
  let outcome := combine deciding
  { outcome := outcome
    matchedRules := deciding
    shadowMatches := (shadow.filter (·.matched)).map (·.rule)
    erroredRules := errored
    evaluatedRules := live.length + shadow.length
    degraded := !errored.isEmpty
    reason := reasonOf deciding outcome
    customerMessage := customerMessageOf deciding outcome
    steps := ((live ++ shadow).map (·.steps)).sum }

/-- `decide`: evaluate every active and shadow rule and combine them into one answer. -/
def RuleSet.decide (py : Python) (ruleset : RuleSet) (context : EvaluationContext)
    (fallback : Dict Severity String) (limit : Nat) : Except Raised Decision := do
  let live ← evaluateAll py ruleset.active context limit
  let shadow ← evaluateAll py ruleset.shadow context limit
  pure (combineResults fallback live shadow)

end ComplyLayer
