import ComplyLayer.Backtest.Replay
import Mathlib.Data.Finset.Basic
import Mathlib.Data.Finset.Dedup

/-!
# Testing a rule against history

`backtest` of `backtest/replay.py`: a candidate rule against stored decisions, and how far the
numbers can be trusted.
-/

namespace ComplyLayer

open Theory

mutual
/-- The names that `ast.walk` finds in a tree. -/
def Node.names : Node → List String
  | .constant _ => []
  | .name id => [id]
  | .boolOp _ values => namesAll values
  | .unaryOp _ operand => operand.names
  | .binOp left _ right => left.names ++ right.names
  | .compare left comparators => left.names ++ namesComparators comparators
  | .call func args keywords => func.names ++ (namesAll args ++ namesKeywords keywords)
  | .list elts | .tuple elts => namesAll elts
  | .attributeOf value _ => value.names
  | .subscript value slice => value.names ++ slice.names
  | .other _ _ children => namesAll children

def Node.namesAll : List Node → List String
  | [] => []
  | node :: rest => node.names ++ namesAll rest

def Node.namesComparators : List (CmpOp × Node) → List String
  | [] => []
  | (_, node) :: rest => node.names ++ namesComparators rest

def Node.namesKeywords : List (Option String × Node) → List String
  | [] => []
  | (_, node) :: rest => node.names ++ namesKeywords rest
end

/-- `required_facts`. -/
def requiredFacts (py : Python) (expression : String) : Except SourceError (Finset String) :=
  (parse py expression).map fun tree => tree.names.toFinset

/-- EXACT, PARTIAL and UNAVAILABLE. -/
inductive Confidence where
  | exact | partly | unavailable
  deriving DecidableEq

structure Impact where
  confidence : Confidence := .exact
  considered : Nat := 0
  skipped : Nat := 0
  matched : Nat := 0
  errored : Nat := 0
  samples : List Sample := []
  missingFacts : Finset String := ∅

/-- `needed - available`. `_context` keeps the names of the stored facts. -/
def DecisionRow.missing (decision : DecisionRow) (needed : Finset String) : Finset String :=
  needed.filter (· ∉ decision.facts.keys)

/-- `evaluate`, on what is stored of a decision. -/
def DecisionRow.answer (decision : DecisionRow) (functions : String → Option Function)
    (tree : Node) : Except Raised Bool :=
  ((Interpreter.run (contextOf decision functions) maxSteps tree).run 0).1

/-- A turn of the loop of `backtest`. -/
def Impact.count (str : Int → String) (sampleLimit : Nat) (functions : String → Option Function)
    (tree : Node) (needed : Finset String) (impact : Impact) (decision : DecisionRow) :
    Except Raised Impact :=
  if decision.missing needed ≠ ∅ then
    .ok { impact with
      skipped := impact.skipped + 1
      missingFacts := impact.missingFacts ∪ decision.missing needed }
  else
    let impact := { impact with considered := impact.considered + 1 }
    match decision.answer functions tree with
    | .error (.evaluation _) => .ok { impact with errored := impact.errored + 1 }
    | .error (.escaped e) => .error (.escaped e)
    | .ok false => .ok impact
    | .ok true =>
      .ok { impact with
        matched := impact.matched + 1
        samples :=
          if impact.samples.length < sampleLimit then impact.samples ++ [decision.sample str]
          else impact.samples }

/-- The end of `backtest`. -/
def Impact.rated (impact : Impact) : Impact :=
  if impact.considered = 0 ∧ impact.skipped ≠ 0 then { impact with confidence := .unavailable }
  else if impact.skipped ≠ 0 then { impact with confidence := .partly }
  else impact

inductive BacktestError where
  | refused (e : SourceError)
  | raised (e : Raised)

def backtest (py : Python) (str : Int → String) (expression : String)
    (decisions : List DecisionRow) (sampleLimit : Nat := 20)
    (functions : String → Option Function := fun _ => none) : Except BacktestError Impact := do
  let tree ← (parse py expression).mapError .refused
  let needed ← (requiredFacts py expression).mapError .refused
  let impact ← (decisions.foldlM (Impact.count str sampleLimit functions tree needed) {}).mapError
    .raised
  return impact.rated

/-! ## What is counted -/

variable {id : String}

theorem mem_namesAll : id ∈ Node.namesAll nodes ↔ ∃ n ∈ nodes, id ∈ n.names := by
  induction nodes with
  | nil => simp [Node.namesAll]
  | cons node rest ih => simp [Node.namesAll, ih]

theorem mem_namesComparators :
    id ∈ Node.namesComparators comparators ↔ ∃ n ∈ comparators.map Prod.snd, id ∈ n.names := by
  induction comparators with
  | nil => simp [Node.namesComparators]
  | cons comparator rest ih => simp [Node.namesComparators, ih]

theorem mem_namesKeywords :
    id ∈ Node.namesKeywords keywords ↔ ∃ n ∈ keywords.map Prod.snd, id ∈ n.names := by
  induction keywords with
  | nil => simp [Node.namesKeywords]
  | cons keyword rest ih => simp [Node.namesKeywords, ih]

/-- The names of a node are those of the nodes right below it. -/
theorem mem_names_iff_children (h : ∀ name, n ≠ .name name) :
    id ∈ Node.names n ↔ ∃ c ∈ n.children, id ∈ c.names := by
  cases n with
  | name name => exact absurd rfl (h name)
  | _ =>
    simp [Node.names, Node.children, mem_namesAll, mem_namesComparators, mem_namesKeywords,
      or_and_right, exists_or]

theorem mem_names_iff (n : Node) : id ∈ n.names ↔ (Node.name id).Under n := by
  induction n using Node.induction with
  | h n ih =>
    by_cases hname : ∃ name, n = .name name
    · obtain ⟨name, rfl⟩ := hname
      rw [Node.names, List.mem_singleton]
      constructor
      · rintro rfl
        exact .refl
      · intro h
        cases h with
        | refl => rfl
        | child hc _ => cases hc
    · rw [mem_names_iff_children fun name h => hname ⟨name, h⟩]
      constructor
      · rintro ⟨c, hc, hid⟩
        exact .child hc ((ih c hc).mp hid)
      · intro h
        cases h with
        | refl => exact absurd ⟨id, rfl⟩ hname
        | child hc h => exact ⟨_, hc, (ih _ hc).mpr h⟩

end ComplyLayer
