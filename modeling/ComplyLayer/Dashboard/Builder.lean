import ComplyLayer.Dsl.Structured
import ComplyLayer.Theory.Dict
import ComplyLayer.Theory.Outcomes

/-!
# The visual rule builder

`dashboard/builder.py`, and `preview` of `dashboard/views.py`. A constructor that looks up an answer
that was not given raises `KeyError`, which is `none` here.
-/

namespace ComplyLayer

open Theory

/-- One control of the builder form. -/
structure Input where
  key : String
  required : Bool := true

/-- The answers, by control. -/
abbrev Answered := Dict String Value

namespace Builder

/-- `values.get(key)` is true. -/
def given (values : Answered) (key : String) : Bool := (values.get? key).elim false Value.truthy

/-- `values.get(key)`, where that is not `None`. -/
def notNone? (values : Answered) (key : String) : Option Value :=
  (values.get? key).filter fun v => v.typeName ≠ "NoneType"

/-- `{"fact": name}`. -/
def fact (name : Value) : Value := .dict [("fact", name)]

def amountLimit (values : Answered) : Option Value := do
  let limit ← values.get? "limit"
  let comparand := if limit.isText then fact limit else limit
  pure (.dict [("fact", (values.get? "subject").getD (.str "amount_minor")), ("op", .str ">"),
    ("value", comparand)])

def velocityCount (values : Answered) : Option Value := do
  let window ← values.get? "window"
  let count ← values.get? "count"
  let bound :=
    if given values "min_amount_minor" then
      (values.get? "min_amount_minor").toList.map fun v => ("min_amount_minor", v)
    else []
  pure (.dict [("call", .str "velocity_count"), ("args", .dict (("window", window) :: bound)),
    ("op", .str ">"), ("value", count)])

def structuring (values : Answered) : Option Value := do
  let threshold := (values.get? "threshold_fact").getD (.str "reporting_threshold_minor")
  let window ← values.get? "window"
  let count ← values.get? "count"
  let lower : Value := .dict [("call", .str "percent_of"),
    ("positional", .list [fact threshold, (values.get? "percent").getD (.int 90)])]
  pure (.dict [("call", .str "velocity_count"),
    ("args", .dict [("window", window), ("min_amount_minor", lower),
      ("max_amount_minor", fact threshold)]),
    ("op", .str ">="), ("value", count)])

/-- A comparison of `days_since` a fact. -/
def daysSince (since : Value) (op : String) (days : Value) : Value :=
  .dict [("call", .str "days_since"), ("positional", .list [fact since]), ("op", .str op),
    ("value", days)]

/-- A comparison of a fact of the transaction or the customer. -/
def factIs (name op : String) (v : Value) : Value :=
  .dict [("fact", .str name), ("op", .str op), ("value", v)]

def dormantReactivation (values : Answered) : Option Value := do
  let days ← values.get? "days"
  let amount ← values.get? "amount_minor"
  let since := (values.get? "since_fact").getD (.str "last_transaction_at")
  pure (.dict [("all", .list [daysSince since ">" days, factIs "amount_minor" ">" amount])])

def inList (values : Answered) : Value :=
  .dict [("call", .str "in_list"),
    ("positional", .list [fact (.str "destination_country"),
      fact ((values.get? "list_name").getD (.str "high_risk_countries"))])]

def hourIs (op : String) (hour : Value) : Value :=
  .dict [("call", .str "hour_of_day"), ("op", .str op), ("value", hour)]

def corridor (values : Answered) : Option Value :=
  let tier :=
    if given values "max_kyc_tier" then
      (values.get? "max_kyc_tier").toList.map fun v => factIs "kyc_tier" "<" v
    else []
  let hours :=
    match notNone? values "from_hour", notNone? values "to_hour" with
    | some start, some stop => [.dict [("any", .list [hourIs "<" start, hourIs ">" stop])]]
    | _, _ => []
  some (.dict [("all", .list (inList values :: (tier ++ hours)))])

def newAccount (values : Answered) : Option Value := do
  let days ← values.get? "days"
  let amount ← values.get? "amount_minor"
  pure (.dict [("all", .list [daysSince (.str "account_created_at") "<" days,
    factIs "amount_minor" ">" amount])])

end Builder

/-- A rule pattern, with the constructor `BUILDERS` has under its key. -/
structure Shape where
  key : String
  inputs : List Input
  construct : Answered → Option Value

namespace Shape

def amountLimit : Shape where
  key := "amount_limit"
  inputs := [{ key := "subject" }, { key := "limit" }]
  construct := Builder.amountLimit

def velocityCount : Shape where
  key := "velocity_count"
  inputs := [{ key := "window" }, { key := "count" }, { key := "min_amount_minor", required := false }]
  construct := Builder.velocityCount

def structuring : Shape where
  key := "structuring"
  inputs := [{ key := "window" }, { key := "count" }, { key := "percent" },
    { key := "threshold_fact", required := false }]
  construct := Builder.structuring

def dormantReactivation : Shape where
  key := "dormant_reactivation"
  inputs := [{ key := "days" }, { key := "amount_minor" }]
  construct := Builder.dormantReactivation

def corridor : Shape where
  key := "corridor"
  inputs := [{ key := "list_name" }, { key := "max_kyc_tier", required := false },
    { key := "from_hour", required := false }, { key := "to_hour", required := false }]
  construct := Builder.corridor

def newAccount : Shape where
  key := "new_account"
  inputs := [{ key := "days" }, { key := "amount_minor" }]
  construct := Builder.newAccount

end Shape

/-- `SHAPES`. -/
def shapes : List Shape :=
  [.amountLimit, .velocityCount, .structuring, .dormantReactivation, .corridor, .newAccount]

/-- `SHAPES_BY_KEY`. -/
def shapesByKey (key : String) : Option Shape := shapes.find? fun shape => shape.key = key

structure BuildResult where
  expression : String
  structured : Value
  /-- `none` where the rule is valid. -/
  error : Option RuleSyntaxError := none

def BuildResult.valid (result : BuildResult) : Bool := result.error.isNone

/-- What `build` raises. -/
inductive BuildRaised where
  /-- `KeyError` or `TypeError`, of an answer that is missing. -/
  | missing
  | memoryError

/-- `build`, of a shape. -/
def Shape.build (py : Python) (shape : Shape) (values : Answered) : Except BuildRaised BuildResult :=
  match shape.construct values with
  | none => .error .missing
  | some structured =>
    let written := do
      let expression ← (Structured.toExpression py structured).mapError SourceError.refused
      let _ ← validateSource py expression
      pure expression
    match written with
    | .ok expression => .ok { expression := expression, structured := structured }
    | .error (.refused e) => .ok { expression := "", structured := structured, error := some e }
    | .error .memoryError => .error .memoryError

/-! ## The live preview -/

/-- The Unicode tables behind `str.isdigit` and `int`. -/
structure DigitTables where
  isdigit : Char → Bool
  /-- The value of a decimal digit. A superscript is a digit, and no decimal one. -/
  decimal : Char → Option Nat
  isdigit_of_decimal : decimal c = some n → isdigit c = true
  hyphen : isdigit '-' = false

/-- How many digits `int` converts. -/
def maxStrDigits : Nat := 4300

namespace DigitTables

variable (tables : DigitTables)

/-- `text.lstrip("-")`. -/
def lstripHyphens (text : String) : List Char := text.toList.dropWhile fun c => c == '-'

/-- `text.lstrip("-").isdigit()`. -/
def looksNumeric (text : String) : Bool :=
  !(lstripHyphens text).isEmpty && (lstripHyphens text).all tables.isdigit

def natOfDecimals (ds : List Char) : Option Nat :=
  if ds.length ≤ maxStrDigits then
    (ds.mapM tables.decimal).map fun values => values.foldl (fun acc d => 10 * acc + d) 0
  else none

/-- `int(text)` of a text of digits after hyphens, `none` where it raises `ValueError`. -/
def int? (text : String) : Option Int :=
  match text.toList with
  | '-' :: ds => (tables.natOfDecimals ds).map fun n : Nat => -(n : Int)
  | ds => (tables.natOfDecimals ds).map fun n : Nat => (n : Int)

end DigitTables

inductive PreviewResponse where
  | valid (expression : String)
  | invalid (error : RuleSyntaxError)
  /-- `KeyError`: an answer is missing. -/
  | incomplete (problem fix : String)

/-- What `preview` raises. -/
inductive PreviewRaised where
  | http404
  | valueError
  | memoryError

/-- The value of a control that was not left blank. -/
def postedValue (tables : DigitTables) (raw : String) : Except PreviewRaised Value :=
  if tables.looksNumeric raw then
    match tables.int? raw with
    | some n => .ok (.int n)
    | none => .error .valueError
  else .ok (.str raw)

/-- The loop of `preview` over the controls of a shape. -/
def postedValues (tables : DigitTables) (post : String → Option String) :
    List Input → Answered → Except PreviewRaised Answered
  | [], values => .ok values
  | input :: inputs, values =>
    let raw := strip ((post input.key).getD "")
    if raw = "" then postedValues tables post inputs values
    else do
      let value ← postedValue tables raw
      postedValues tables post inputs (values.set input.key value)

/-- `preview`, of what was posted. -/
def preview (py : Python) (tables : DigitTables) (post : String → Option String) :
    Except PreviewRaised PreviewResponse :=
  match (post "shape").bind shapesByKey with
  | none => .error .http404
  | some shape => do
    let values ← postedValues tables post shape.inputs ∅
    match shape.build py values with
    | .error .missing =>
      pure (.incomplete "Some answers are still missing." "Fill in every field marked required.")
    | .error .memoryError => .error .memoryError
    | .ok result =>
      match result.error with
      | some e => pure (.invalid e)
      | none => pure (.valid result.expression)

/-- What is built without an error is an expression that validates. -/
theorem Shape.validateSource_of_build {py : Python} {shape : Shape}
    (h : shape.build py values = .ok result) (hvalid : result.error = none) :
    ∃ tree, validateSource py result.expression = .ok tree := by
  unfold Shape.build at h
  split at h
  · cases h
  · dsimp only at h
    split at h
    · rename_i expression hwritten
      cases h
      obtain ⟨expression', -, hwritten⟩ := bind_eq_ok.mp hwritten
      obtain ⟨tree, htree, hwritten⟩ := bind_eq_ok.mp hwritten
      cases hwritten
      exact ⟨tree, htree⟩
    · cases h
      cases hvalid
    · cases h

end ComplyLayer
