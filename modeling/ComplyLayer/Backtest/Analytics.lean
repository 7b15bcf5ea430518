import ComplyLayer.Api.Store
import ComplyLayer.Theory.Tally

/-!
# Which rules are worth their noise

`performance` of `backtest/analytics.py`, over stored decisions with the status of their review.
-/

namespace ComplyLayer

open Theory

structure ReviewedDecision where
  row : DecisionRow
  reviewStatus : String

structure RulePerformance where
  ruleId : String
  name : String
  fired : Nat
  reviewed : Nat
  cleared : Nat
  confirmed : Int

/-- `false_positive_rate`, by the division of the runtime. -/
def RulePerformance.falsePositiveRate (divide : Nat → Nat → ℚ) (p : RulePerformance) : Option ℚ :=
  if p.reviewed = 0 then none else some (divide p.cleared p.reviewed)

/-- `matched["id"] if isinstance(matched, dict) else matched`, `none` where that raises or is no
text. -/
def matchedId : Value → Option String
  | .dict entries =>
    match Dict.find "id" entries with
    | some (.str id) => some id
    | _ => none
  | .str id => some id
  | _ => none

/-- The ids of `decision.matched_rules or []`. -/
def DecisionRow.matchedIds (row : DecisionRow) : Option (List String) :=
  match row.matchedRules with
  | .list entries => entries.mapM matchedId
  | .none => some []
  | _ => none

/-- The three dictionaries of the loop. -/
structure Tallies where
  fired : Dict String Nat := ∅
  reviewed : Dict String Nat := ∅
  cleared : Dict String Nat := ∅

/-- A turn of the inner loop. -/
def Tallies.count (reviewStatus : String) (t : Tallies) (ruleId : String) : Tallies :=
  let t := { t with fired := t.fired.bump ruleId }
  if reviewStatus = "" then t
  else
    let t := { t with reviewed := t.reviewed.bump ruleId }
    if reviewStatus = "cleared" then { t with cleared := t.cleared.bump ruleId } else t

/-- A turn of the outer loop. -/
def Tallies.turn (t : Tallies) (decision : ReviewedDecision) : Option Tallies :=
  decision.row.matchedIds.map fun ids => ids.foldl (Tallies.count decision.reviewStatus) t

/-- The entry of a rule and how often it fired. -/
def Tallies.entry (t : Tallies) (names : Dict String String) (fired : String × Nat) :
    RulePerformance where
  ruleId := fired.1
  name := (names.get? fired.1).getD fired.1
  fired := fired.2
  reviewed := t.reviewed.countOf fired.1
  cleared := t.cleared.countOf fired.1
  confirmed := (t.reviewed.countOf fired.1 : Int) - t.cleared.countOf fired.1

/-- `(-(r.false_positive_rate or 0), -r.fired)`. -/
def RulePerformance.sortKey (divide : Nat → Nat → ℚ) (r : RulePerformance) : ℚ ×ₗ ℤ :=
  toLex (-(r.falsePositiveRate divide).getD 0, -(r.fired : ℤ))

/-- `performance`: the rules that fired, the worst first. -/
def performance (divide : Nat → Nat → ℚ) (decisions : List ReviewedDecision)
    (names : Dict String String) : Option (List RulePerformance) :=
  (decisions.foldlM Tallies.turn {}).map fun t =>
    sortBy (RulePerformance.sortKey divide) (t.fired.entries.map (t.entry names))

end ComplyLayer
