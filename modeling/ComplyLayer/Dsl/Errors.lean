import ComplyLayer.Dsl.Python

/-!
# The error catalogue

`dsl/errors.py`: the refusals of a rule text, in their three parts, and the errors of an
evaluation.
-/

namespace ComplyLayer

/-- A rule expression was rejected. -/
structure RuleSyntaxError where
  problem : String
  fix : String := ""
  reason : String := ""
  deriving DecidableEq, Repr

namespace RuleSyntaxError

def attributeAccess (name : Option String) : RuleSyntaxError where
  problem := match name with
    | some name => s!"Rules cannot use a dot (.). You wrote {name}."
    | none => "Rules cannot use a dot (.)."
  fix := "Facts are available by name on their own — write kyc_tier, not customer.kyc_tier. " ++
    "See the function reference for everything available."
  reason := "a dot is the main route a rule could use to break out of its sandbox"

def subscript : RuleSyntaxError where
  problem := "Rules cannot use square brackets to pick an item out of a list."
  fix := "To test whether a value is in a list, use in_list(country, high_risk_countries)."
  reason := "indexing is one of the steps an attacker needs, and no compliance rule needs it"

/-- `available` is sorted by the caller. -/
def unknownFunction (py : Python) (name : String) (available : List String) : RuleSyntaxError where
  problem := s!"There is no function called {name}."
  fix := (match py.closeMatch name available with
      | some suggestion => s!"Did you mean {suggestion}? "
      | none => "") ++
    "Available functions: " ++ ", ".intercalate available ++ "."
  reason := "rules may only call functions ComplyLayer provides"

def indirectCall : RuleSyntaxError where
  problem := "Rules can only call a function directly by name."
  fix := "Write velocity_count(window='1h'), not something that produces a function first."

def constructNames : List (String × String) :=
  [("Lambda", "an inline function (lambda)"),
    ("ListComp", "a list comprehension"),
    ("SetComp", "a set comprehension"),
    ("DictComp", "a dictionary comprehension"),
    ("GeneratorExp", "a generator expression"),
    ("JoinedStr", "a formatted string (f-string)"),
    ("FormattedValue", "a formatted string (f-string)"),
    ("Dict", "a dictionary"),
    ("Set", "a set literal"),
    ("Starred", "argument unpacking (*)"),
    ("IfExp", "an inline if/else"),
    ("Await", "await"),
    ("Yield", "yield"),
    ("YieldFrom", "yield from"),
    ("NamedExpr", "an assignment inside an expression (:=)"),
    ("Slice", "a slice"),
    ("Attribute", "a dot (.)"),
    ("Subscript", "square-bracket indexing")]

def constructNotAllowed (construct : String) : RuleSyntaxError where
  problem := "Rules cannot use " ++ (constructNames.lookup construct).getD construct ++ "."
  fix := "A rule is a single yes-or-no question about one transaction — a comparison, " ++
    "possibly several joined with and/or. Anything more belongs in a new function, " ++
    "which an engineer adds and reviews."
  reason := s!"{construct} is outside the permitted rule grammar"

def statementNotExpression : RuleSyntaxError where
  problem := "A rule must be a single question, not an instruction."
  fix := "Write a comparison such as amount_minor > tier_daily_limit_minor. " ++
    "Assignments, imports and loops are not part of the rule language."

def emptyRule : RuleSyntaxError where
  problem := "The rule is empty."
  fix := "Write a comparison, for example amount_minor > 5_000_000."

def tooLong (length maximum : Nat) : RuleSyntaxError where
  problem := s!"The rule is too long: {length} characters, and the limit is {maximum}."
  fix := "Split it into two rules. Two rules that each say one thing are also easier to " ++
    "approve, and easier to explain to a regulator."

def tooDeep (maximum : Nat) : RuleSyntaxError where
  problem := s!"The rule nests brackets more than {maximum} deep."
  fix := "Split it into two rules."
  reason := "deeply nested expressions are a denial-of-service risk before they are even read"

def tooManyOperators (maximum : Nat) : RuleSyntaxError where
  problem := s!"The rule has a run of more than {maximum} operators in a row."
  fix := "Remove the repetition — 'not not x' is just 'x'."

def tooComplex (nodes maximum : Nat) : RuleSyntaxError where
  problem := s!"The rule is too complex: {nodes} parts, and the limit is {maximum}."
  fix := "Split it into two rules."
  reason := "every rule shares one evaluation budget, so one large rule slows every decision"

def malformed : RuleSyntaxError where
  problem := "The rule is not written correctly and could not be read."
  fix := "Check for a missing bracket or comparison."

def unknownKeyword (function keyword : String) (available : List String) : RuleSyntaxError where
  problem := s!"{function} has no setting called {keyword}."
  fix := if available.isEmpty then s!"{function} takes no settings."
    else s!"{function} accepts: " ++ ", ".intercalate available ++ "."

def reservedName (name : String) : RuleSyntaxError where
  problem := s!"{name} is not a fact you can use in a rule."
  fix := "Facts have plain names such as amount_minor, kyc_tier or destination_country. " ++
    "Names starting with an underscore belong to Python itself."
  reason := "reserved names are refused so a rule can never reach the runtime behind it"

def nonAsciiName (py : Python) (name : String) : RuleSyntaxError where
  problem := py.repr (.str name) ++ " contains characters that are not plain English letters."
  fix := "Fact and function names use a-z, 0-9 and underscores only. If you copied this " ++
    "from elsewhere, retype it."
  reason := "letters from other alphabets can look identical to English ones, so a rule " ++
    "could read one way and behave another"

def wrongArity (function : String) (given expected : Nat) : RuleSyntaxError where
  problem := s!"{function} needs {expected} " ++ (if expected = 1 then "value" else "values") ++
    s!", but was given {given}."
  fix := if expected = 0 then s!"Write {function}() with nothing in the brackets."
    else s!"Write {function}(" ++ ", ".intercalate (List.replicate expected "...") ++ ")."

def duplicateKeyword (function keyword : String) : RuleSyntaxError where
  problem := s!"{function} was given {keyword} twice."
  fix := "Remove one of them."
  reason := "with two values there is no way to say which one the rule meant"

def literalKind : Value → String
  | .float _ | .negativeZero => "a decimal number"
  | .complex _ _ => "an imaginary number"
  | .bytes _ => "raw bytes"
  | .none => "nothing"
  | .ellipsis => "..."
  | value => "a " ++ value.typeName

def badLiteral (value : Value) : RuleSyntaxError where
  problem := "Rules cannot contain " ++ literalKind value ++ "."
  fix := "Amounts are whole numbers of minor units — write 1500000 for ₦15,000.00, " ++
    "not 15000.00."
  reason := "decimals cannot be compared exactly, and a decision has to reproduce " ++
    "identically years later"

def nonNumericOperand : RuleSyntaxError where
  problem := "Arithmetic in a rule works on whole numbers only."
  fix := "Compare amounts and counts, not text or lists."
  reason := "multiplying text or a list repeats it, which can exhaust memory in a single step"

def divisionByZero : RuleSyntaxError where
  problem := "The rule divides by zero."
  fix := "Use a number other than zero."

def notACondition : RuleSyntaxError where
  problem := "This rule is a fixed value, so it would give the same answer every time."
  fix := "A rule asks a question about the transaction, such as amount_minor > 5_000_000."
  reason := "a rule that always fires blocks everything, and one that never fires is " ++
    "a control that is not there"

def numberTooLarge (digits maximum : Nat) : RuleSyntaxError where
  problem := s!"That number has {digits} digits, and the limit is {maximum}."
  fix := "Amounts are in minor units, so even large limits are far shorter than this."

def nonAsciiSource (py : Python) (char : Char) : RuleSyntaxError where
  problem := "The rule contains " ++ py.repr (.str (String.singleton char)) ++
    ", which is not a plain English character."
  fix := "Retype the rule using a-z, 0-9 and the usual symbols. Accented characters are " ++
    "fine inside quoted text, just not in names."
  reason := "characters from other alphabets can look identical to English ones, and the " ++
    "rule would then read one way and behave another"

end RuleSyntaxError

/-- Every `RuleEvaluationError` the package raises. -/
inductive RuleEvaluationError where
  | unknownFact (name : String)
  | stepBudgetExceeded (budget : Nat)
  | uncomparable (left right : String)
  | notANumber (kind : String)
  | resultTooLarge (bits maximum : Nat)
  | cannotEvaluate (kind : String)
  | divideByZero
  | remainderByZero
  | notAvailable (name : String)
  | notAWindow (window : Value)
  | notWhole (label : String)
  | notADate (timestamp : String)
  | needsDate
  | needsList
  | velocityUnavailable (cause : String)

/-- The windows in the order `WINDOW_SECONDS` lists them. -/
def windowNames : List String := ["1m", "5m", "15m", "1h", "6h", "24h", "7d", "30d"]

/-- `str(error)`. -/
def RuleEvaluationError.reason (py : Python) : RuleEvaluationError → String
  | unknownFact name => s!"no value was supplied for {name}"
  | stepBudgetExceeded budget => s!"evaluation exceeded {budget} steps"
  | uncomparable left right => s!"cannot compare {left} with {right}"
  | notANumber kind => s!"arithmetic needs whole numbers, got {kind}"
  | resultTooLarge bits maximum => s!"arithmetic produced a {bits}-bit number, limit is {maximum}"
  | cannotEvaluate kind => s!"cannot evaluate {kind}"
  | divideByZero => "cannot divide by zero"
  | remainderByZero => "cannot take a remainder by zero"
  | notAvailable name => s!"{name} is not available in this context"
  | notAWindow window => py.repr window ++ " is not a window. Use one of: " ++
      ", ".intercalate windowNames
  | notWhole label => s!"{label} must be a whole number"
  | notADate timestamp => py.repr (.str timestamp) ++ " is not a date"
  | needsDate => "days_since needs a date"
  | needsList => "in_list needs a list to look in"
  | velocityUnavailable cause => s!"velocity data is unavailable: {cause}"

/-- The exceptions of Python itself that evaluating a tree can end in. -/
inductive PyException where
  | typeError
  | attributeError
  deriving DecidableEq, Repr

/-- What an evaluation raises: the one error `decide` catches, or anything else. -/
inductive Raised where
  | evaluation (error : RuleEvaluationError)
  | escaped (exception : PyException)

/-- The exception is a `RuleEvaluationError`. -/
def Raised.IsEvaluation : Raised → Prop
  | evaluation _ => True
  | escaped _ => False

@[simp] theorem Raised.isEvaluation_evaluation (e : RuleEvaluationError) :
    (Raised.evaluation e).IsEvaluation := trivial

@[simp] theorem Raised.not_isEvaluation_escaped (e : PyException) :
    ¬ (Raised.escaped e).IsEvaluation := fun h => h

end ComplyLayer
