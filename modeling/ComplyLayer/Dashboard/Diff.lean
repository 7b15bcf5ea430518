import ComplyLayer.Dsl.Parser
import ComplyLayer.Theory.Rounding
import Mathlib.Data.List.SplitOn

/-!
# The approval diff

`dashboard/diff.py`: which threshold of a rule changed, in which direction and by how much.
-/

namespace ComplyLayer

open Theory

/-! ## A threshold that moved -/

structure ThresholdChange where
  fact : String
  before : Int
  after : Int
  currency : String := "NGN"
  deriving DecidableEq

namespace Diff

/-- `MINOR_UNITS.get(currency, 100)`. -/
def minorUnits (currency : String) : Nat := if currency = "JPY" then 1 else 100

/-- `SYMBOLS.get(currency, "")`. -/
def symbol (currency : String) : String :=
  match currency with
  | "NGN" => "₦"
  | "USD" => "$"
  | "EUR" => "€"
  | "GBP" => "£"
  | "KES" => "KSh"
  | "JPY" => "¥"
  | "GHS" => "₵"
  | _ => ""

/-- The digits of the default decimal context. -/
def contextDigits : Nat := 28

/-- `decimal.InvalidOperation`. -/
inductive DecimalError where
  | invalidOperation
  deriving DecidableEq

/-- `Decimal(m) / Decimal(n)`, for `n` that is not zero. -/
def decimalQuotient (m n : ℚ) : ℚ := roundDigits contextDigits (m / n)

/-- `value.quantize(...)` to so many places: how many units of the last place it has. -/
def quantized (places : Nat) (q : ℚ) : Except DecimalError Int :=
  match quantize contextDigits places q with
  | some units => .ok units
  | none => .error .invalidOperation

/-- The digits of a number in groups of three, from the last. -/
def groups : Nat → List Char → List Char
  | 0, digits => digits
  | fuel + 1, digits =>
    if digits.length ≤ 3 then digits
    else groups fuel (digits.dropLast.dropLast.dropLast) ++ ',' :: digits.drop (digits.length - 3)

/-- `f"{value:,}"`. -/
def grouped (value : Int) : String :=
  (if value < 0 then "-" else "") ++
    String.ofList (groups (toString value.natAbs).length (toString value.natAbs).toList)

/-- The two digits after the point. -/
def twoDigits (n : Nat) : String := (if n < 10 then "0" else "") ++ toString n

/-- `_trim`, of a number of hundredths: `f"{value:f}"` without the zeros and the point at its
end. -/
def trim (hundredths : Int) : String :=
  let text := (if hundredths < 0 then "-" else "") ++ toString (hundredths.natAbs / 100) ++ "." ++
    twoDigits (hundredths.natAbs % 100)
  String.ofList ((text.toList.reverse.dropWhile (· = '0')).dropWhile (· = '.')).reverse

/-- What `magnitude` states. -/
inductive Magnitude where
  /-- The direction alone. -/
  | bare (higher : Bool)
  | multiple (hundredths : Int) (higher : Bool)
  | percent (share : Int) (higher : Bool)
  deriving DecidableEq

def direction (higher : Bool) : String := if higher then "higher" else "lower"

def Magnitude.higher : Magnitude → Bool
  | bare higher | multiple _ higher | percent _ higher => higher

def Magnitude.text : Magnitude → String
  | bare higher => direction higher
  | multiple hundredths higher => trim hundredths ++ "× " ++ direction higher
  | percent share higher => toString share ++ "% " ++ direction higher

end Diff

open Diff

namespace ThresholdChange

variable (change : ThresholdChange)

/-- `(_minor|amount|balance|limit|threshold)$` is found in the fact. The `$` is before a newline at
the end, too. -/
def isAmount : Bool :=
  ["_minor", "amount", "balance", "limit", "threshold"].any fun suffix =>
    change.fact.endsWith suffix || change.fact.endsWith (suffix ++ "\n")

def looser : Bool := change.before < change.after

/-- `factor`, in hundredths. -/
def factor : Except DecimalError (Option Int) :=
  if change.before = 0 then .ok none
  else (quantized 2 (decimalQuotient change.after change.before)).map some

/-- `render`. Formatting rounds, and has no limit to its digits. -/
def render (value : Int) : Except DecimalError String :=
  if ¬ change.isAmount then .ok (grouped value)
  else if minorUnits change.currency = 1 then .ok (symbol change.currency ++ grouped value)
  else
    let major := roundPlaces 2 (decimalQuotient value (minorUnits change.currency))
    .ok (symbol change.currency ++ (if major < 0 then "-" else "") ++ grouped (major.natAbs / 100) ++
      "." ++ twoDigits (major.natAbs % 100))

def renderBefore : Except DecimalError String := change.render change.before

def renderAfter : Except DecimalError String := change.render change.after

/-- The factor of a limit that did not go up, the other way round. -/
def inverted (hundredths : Int) : Except DecimalError Int :=
  if hundredths = 0 then quantized 2 0 else quantized 2 (decimalQuotient 1 (hundredths / 100))

/-- `magnitude`. -/
def magnitude : Except DecimalError Magnitude := do
  match ← change.factor with
  | none => return .bare change.looser
  | some factor =>
    let factor ← if change.looser then pure factor else inverted factor
    if 200 ≤ factor then return .multiple factor change.looser
    let share := decimalQuotient (change.after - change.before : Int) change.before
    let percent ← quantized 0 |roundDigits contextDigits (share * 100)|
    return .percent percent change.looser

end ThresholdChange

/-! ## What changed between two rules -/

/-- What `ast.walk` has in its queue: an expression, or a keyword of a call, which has its value
below it. -/
inductive Visited where
  | node (node : Node)
  | keyword (value : Node)

def Visited.children : Visited → List Visited
  | node (.call func args keywords) =>
    node func :: (args.map node ++ keywords.map fun keyword => .keyword keyword.2)
  | node n => n.children.map node
  | keyword value => [node value]

/-- `ast.walk` from a queue, breadth first. -/
def walkFrom : Nat → List Visited → List Visited
  | 0, _ | _ + 1, [] => []
  | fuel + 1, visited :: queue => visited :: walkFrom fuel (queue ++ visited.children)

/-- The name on the left of a comparison, of a fact or of the function that is called. -/
def factName : Node → String
  | .name id => id
  | .call (.name id) _ _ => id
  | _ => ""

/-- The value of an `int`. A `bool` is one. -/
def Value.int? : Value → Option Int
  | .int n => some n
  | .bool b => some (if b then 1 else 0)
  | _ => .none

def Node.int? : Node → Option Int
  | .constant value => value.int?
  | _ => none

/-- The integers a node is compared with, under the name on its left. -/
def Visited.numbers : Visited → List (String × Int)
  | node (.compare left comparators) =>
    comparators.filterMap fun comparator => comparator.2.int?.map fun n => (factName left, n)
  | _ => []

/-- `_numbers`, of the tree. -/
def Node.numbers (tree : Node) : List (String × Int) :=
  (walkFrom tree.walk [.node tree]).flatMap Visited.numbers

namespace Diff

/-- The places where two lists of numbers differ, under the names of the first. -/
def differences (before after : List (String × Int)) : List (String × Int × Int) :=
  (before.zip after).filterMap fun (old, new) =>
    if old.2 ≠ new.2 then some (old.1, old.2, new.2) else none

end Diff

structure RuleDiff where
  before : String
  after : String
  threshold : Option ThresholdChange
  changedTokens : List String
  regulatoryReference : String
  author : String
  reason : String

def RuleDiff.isThresholdOnly (diff : RuleDiff) : Bool :=
  diff.threshold.isSome && diff.changedTokens.length == 1

namespace Diff

/-- `str.split`. -/
def split (s : String) : List String :=
  ((s.toList.splitOnP isspace).filter fun word => word ≠ []).map String.ofList

/-- The threshold that moved, if exactly one did. -/
def thresholdOf (before after : List (String × Int)) (currency : String) : Option ThresholdChange :=
  if before.length = after.length then
    match differences before after with
    | [(fact, old, new)] => some ⟨fact, old, new, currency⟩
    | _ => none
  else none

/-- `compare`. -/
def compare (py : Python) (before after : String) (currency regulatoryReference author
    reason : String) : Except SourceError RuleDiff := do
  let beforeNumbers := (← parse py before).numbers
  let afterNumbers := (← parse py after).numbers
  return {
    before := before
    after := after
    threshold := thresholdOf beforeNumbers afterNumbers currency
    changedTokens := (split after).filter fun token => token ∉ split before
    regulatoryReference := regulatoryReference
    author := author
    reason := reason }

end Diff

end ComplyLayer
