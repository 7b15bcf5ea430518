import ComplyLayer.Dsl.Errors
import ComplyLayer.Theory.Dict
import Mathlib.Data.List.Sort
import Mathlib.Data.String.Basic

/-!
# The functions a rule may call

`dsl/functions.py`: the declared signatures, and the implementations bound to one transaction's
velocity provider and instant.
-/

namespace ComplyLayer

open Theory

structure FunctionSpec where
  name : String
  positional : Nat := 0
  keywords : List String := []

def velocityKeywords : List String :=
  ["window", "min_amount_minor", "max_amount_minor", "transaction_type"]

/-- `SPECS`, in the order the source declares them. -/
def specs : List FunctionSpec :=
  [{ name := "velocity_count", keywords := velocityKeywords },
    { name := "velocity_sum", keywords := velocityKeywords },
    { name := "days_since", positional := 1 },
    { name := "in_list", positional := 2 },
    { name := "hour_of_day" },
    { name := "abs", positional := 1 },
    { name := "min", positional := 2 },
    { name := "max", positional := 2 },
    { name := "percent_of", positional := 2 }]

def FunctionSpec.find? (name : String) : Option FunctionSpec := specs.find? (·.name == name)

/-- `sorted(ALLOWED_FUNCTIONS)`. -/
def allowedFunctions : List String :=
  ["abs", "days_since", "hour_of_day", "in_list", "max", "min", "percent_of", "velocity_count",
    "velocity_sum"]

/-- `sorted(spec.keywords)`. -/
def FunctionSpec.sortedKeywords (spec : FunctionSpec) : List String :=
  spec.keywords.insertionSort (· ≤ ·)

/-! ## Implementations -/

/-- `WINDOW_SECONDS`. -/
def windowSeconds? : String → Option Nat
  | "1m" => some 60
  | "5m" => some 300
  | "15m" => some 900
  | "1h" => some 3600
  | "6h" => some 21600
  | "24h" => some 86400
  | "7d" => some 604800
  | "30d" => some 2592000
  | _ => none

/-- The filters of a velocity call. `Value.none` is a filter that was not given. -/
structure Filters where
  minAmountMinor : Value := .none
  maxAmountMinor : Value := .none
  transactionType : Value := .none

/-- Rolling-window counters over one customer's recent transactions. -/
structure VelocityProvider where
  count : Nat → Filters → Except Raised Int
  total : Nat → Filters → Except Raised Int

abbrev Function := List Value → Dict String Value → Except Raised Value

def typeError : Except Raised α := .error (.escaped .typeError)

def evaluationError (e : RuleEvaluationError) : Except Raised α := .error (.evaluation e)

/-- The values the parameters after the positional ones take: the keyword, or the default. -/
def bindKeywords (kwargs : Dict String Value) : List (String × Option Value) → Option (List Value)
  | [] => some []
  | (name, default) :: params => do
    let value ← kwargs.get? name <|> default
    let values ← bindKeywords kwargs params
    pure (value :: values)

/-- Bind call arguments to parameters as Python does: positional arguments first, then keywords,
then defaults. The result is `none` where Python raises `TypeError`: too many positional
arguments, a keyword that names no parameter or one already bound, or a required parameter
left out. -/
def bindArguments (params : List (String × Option Value)) (args : List Value)
    (kwargs : Dict String Value) : Option (List Value) :=
  let free := (params.drop args.length).map Prod.fst
  if args.length ≤ params.length ∧ ∀ k ∈ kwargs.keys, k ∈ free then
    (bindKeywords kwargs (params.drop args.length)).map (args ++ ·)
  else none

/-- `_window_seconds`. -/
def windowSeconds : Value → Except Raised Nat
  | .str window =>
    match windowSeconds? window with
    | some seconds => .ok seconds
    | none => evaluationError (.notAWindow (.str window))
  | window => evaluationError (.notAWindow window)

/-- `_whole_number`. -/
def wholeNumber (value : Value) (label : String) : Except Raised Int :=
  match value with
  | .int n => .ok n
  | _ => evaluationError (.notWhole label)

def velocityParams : List (String × Option Value) :=
  [("window", none), ("min_amount_minor", some .none), ("max_amount_minor", some .none),
    ("transaction_type", some .none)]

/-- `velocity_count` and `velocity_sum`, which differ in the method of the provider they call. -/
def velocityFunction (method : Nat → Filters → Except Raised Int) : Function := fun args kwargs =>
  match bindArguments velocityParams args kwargs with
  | some [window, minAmount, maxAmount, kind] => do
    let seconds ← windowSeconds window
    let result ← method seconds ⟨minAmount, maxAmount, kind⟩
    pure (.int result)
  | _ => typeError

def velocityCount (velocity : VelocityProvider) : Function := velocityFunction velocity.count

def velocitySum (velocity : VelocityProvider) : Function := velocityFunction velocity.total

/-- Whole days, rounded down, between two instants: `(now - moment).days`. -/
def wholeDaysBetween (now moment : Instant) : Int :=
  (now.micros - moment.micros).fdiv (86400 * 1000000)

def daysSince (py : Python) (now : Instant) : Function := fun args kwargs =>
  match bindArguments [("timestamp", none)] args kwargs with
  | some [.str timestamp] =>
    match py.fromisoformat timestamp with
    | some moment => .ok (.int (wholeDaysBetween now moment.assumeUtc))
    | none => evaluationError (.notADate timestamp)
  | some [.datetime moment] => .ok (.int (wholeDaysBetween now moment.assumeUtc))
  | some [_] => evaluationError .needsDate
  | _ => typeError

def inList : Function := fun args kwargs =>
  match bindArguments [("value", none), ("candidates", none)] args kwargs with
  | some [value, candidates] =>
    if candidates.isContainer then
      match value.isIn? candidates with
      | some found => .ok (.bool found)
      | none => typeError
    else evaluationError .needsList
  | _ => typeError

/-- `now.hour`, on the wall clock of `now`. -/
def hourOfDay (now : Instant) : Function := fun args kwargs =>
  match bindArguments [] args kwargs with
  | some [] => .ok (.int ((now.wall.fdiv (3600 * 1000000)).fmod 24))
  | _ => typeError

def absValue : Function := fun args kwargs =>
  match bindArguments [("value", none)] args kwargs with
  | some [value] => do
    let n ← wholeNumber value "value"
    pure (.int n.natAbs)
  | _ => typeError

/-- `min` and `max`: two whole numbers and the choice between them. -/
def chooseOf (choose : Int → Int → Int) : Function := fun args kwargs =>
  match bindArguments [("a", none), ("b", none)] args kwargs with
  | some [a, b] => do
    let m ← wholeNumber a "value"
    let n ← wholeNumber b "value"
    pure (.int (choose m n))
  | _ => typeError

/-- Integer percentage, rounded down. -/
def percentOf : Function := fun args kwargs =>
  match bindArguments [("amount", none), ("percent", none)] args kwargs with
  | some [amount, percent] => do
    let m ← wholeNumber amount "amount"
    let n ← wholeNumber percent "percent"
    pure (.int ((m * n).fdiv 100))
  | _ => typeError

/-- Bind the allowlisted functions to one transaction's data sources. -/
def build (py : Python) (velocity : VelocityProvider) (now : Instant) : String → Option Function
  | "velocity_count" => some (velocityCount velocity)
  | "velocity_sum" => some (velocitySum velocity)
  | "days_since" => some (daysSince py now)
  | "in_list" => some inList
  | "hour_of_day" => some (hourOfDay now)
  | "abs" => some absValue
  | "min" => some (chooseOf min)
  | "max" => some (chooseOf max)
  | "percent_of" => some percentOf
  | _ => none

end ComplyLayer
