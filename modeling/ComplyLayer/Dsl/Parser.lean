import ComplyLayer.Dsl.Validator

/-!
# From rule text to a validated tree

`dsl/parser.py` and `validate_source`: the textual guards, the parse, the node ceiling, and the
allowlist.
-/

namespace ComplyLayer

open Theory

def maxSourceChars : Nat := 2000
def maxNestingDepth : Nat := 20
def maxUnaryRun : Nat := 5
def maxNodes : Nat := 200
def maxSteps : Nat := 1000

/-- The rest of the text after `n` characters of a literal, skipping to its delimiter. -/
def skipLiteral (delimiter : List Char) : List Char → List Char
  | [] => []
  | ['\\'] => []
  | '\\' :: _ :: rest => skipLiteral delimiter rest
  | c :: rest =>
    if delimiter.isPrefixOf (c :: rest) then (c :: rest).drop delimiter.length
    else skipLiteral delimiter rest

/-- `_skip_string`: what follows the string literal that starts with `quote`. -/
def skipString (quote : Char) (source : List Char) : List Char :=
  let triple := [quote, quote, quote]
  let delimiter := if triple.isPrefixOf source then triple else [quote]
  skipLiteral delimiter (source.drop delimiter.length)

/-- What follows a comment. -/
def skipComment : List Char → List Char
  | [] => []
  | '\n' :: rest => rest
  | _ :: rest => skipComment rest

/-- `_starts_word`. -/
def startsWord (py : Python) (source word : List Char) : Bool :=
  word.isPrefixOf source &&
    match source.drop word.length with
    | [] => true
    | after :: _ => !(py.isalnum after || after == '_')

def isQuote (c : Char) : Bool := c == '\'' || c == '"'
def isOpener (c : Char) : Bool := c == '(' || c == '[' || c == '{'
def isCloser (c : Char) : Bool := c == ')' || c == ']' || c == '}'
def isUnaryChar (c : Char) : Bool := c == '-' || c == '+' || c == '~'

/-- `_scan`, over the text that is left. Each turn drops at least one character, so a fuel of the
text's length is enough. -/
def scan (py : Python) (depth unaryRun : Nat) : Nat → List Char → Except RuleSyntaxError Unit
  | 0, _ => .ok ()
  | _ + 1, [] => .ok ()
  | fuel + 1, c :: rest =>
    if isQuote c then scan py depth 0 fuel (skipString c (c :: rest))
    else if c = '#' then scan py depth 0 fuel (skipComment rest)
    else if isOpener c then
      if maxNestingDepth < depth + 1 then .error (.tooDeep maxNestingDepth)
      else scan py (depth + 1) 0 fuel rest
    else if isCloser c then scan py (depth - 1) 0 fuel rest
    else if isUnaryChar c then
      if maxUnaryRun < unaryRun + 1 then .error (.tooManyOperators maxUnaryRun)
      else scan py depth (unaryRun + 1) fuel rest
    else if startsWord py (c :: rest) ['n', 'o', 't'] then
      if maxUnaryRun < unaryRun + 1 then .error (.tooManyOperators maxUnaryRun)
      else scan py depth (unaryRun + 1) fuel (rest.drop 2)
    else if isspace c then scan py depth unaryRun fuel rest
    else if 128 ≤ c.toNat then .error (.nonAsciiSource py c)
    else scan py depth 0 fuel rest

/-- Cheap textual checks, run before the tokenizer sees anything. -/
def guardSource (py : Python) (source : String) : Except RuleSyntaxError String := do
  if (strip source).isEmpty then .error .emptyRule
  if maxSourceChars < source.length then .error (.tooLong source.length maxSourceChars)
  scan py 0 0 source.length source.toList
  .ok (strip source)

/-- What reading a rule text raises: the error that its callers catch, or the `MemoryError` of
`ast.parse`, which `parse` does not. -/
inductive SourceError where
  | refused (e : RuleSyntaxError)
  | memoryError

/-- Parse guarded source into an expression tree. The count includes the `Expression` node. -/
def parse (py : Python) (source : String) : Except SourceError Node := do
  let guarded ← (guardSource py source).mapError .refused
  match py.astParse guarded with
  | .refused =>
    if py.parsesAsStatements guarded then .error (.refused .statementNotExpression)
    else .error (.refused .malformed)
  | .recursionError => .error (.refused (.tooDeep maxNestingDepth))
  | .memoryError => .error .memoryError
  | .tree body =>
    let nodeCount := 1 + body.walk
    if maxNodes < nodeCount then .error (.refused (.tooComplex nodeCount maxNodes)) else .ok body

/-- Parse and validate rule text, raising `RuleSyntaxError` if it is not a legal rule. -/
def validateSource (py : Python) (source : String) : Except SourceError Node := do
  let body ← parse py source
  (validate py body).mapError .refused

theorem guardSource_eq_ok {py : Python} (h : guardSource py source = .ok guarded) :
    guarded = strip source := by
  simp only [guardSource] at h
  split at h
  · cases h
  · split at h
    · cases h
    · exact (Except.ok.inj (seq_eq_ok.mp h).2).symm

/-- What was parsed is what Python reads the text as, and it passed the node ceiling. -/
theorem parse_eq_ok {py : Python} (h : parse py source = .ok body) :
    py.astParse (strip source) = .tree body ∧ 1 + body.walk ≤ maxNodes := by
  obtain ⟨guarded, hguarded, h⟩ := bind_eq_ok.mp h
  cases guardSource_eq_ok (mapError_eq_ok.mp hguarded)
  split at h
  · split at h <;> cases h
  · cases h
  · cases h
  · rename_i tree htree
    simp only at h
    split at h
    · cases h
    · cases h
      exact ⟨htree, by omega⟩

theorem validate_eq_ok {py : Python} {tree : Node} (h : validate py tree = .ok body) :
    RuleValidator.visit py tree = .ok () ∧ tree = body := by
  unfold validate at h
  obtain ⟨hvisit, h⟩ := seq_eq_ok.mp h
  refine ⟨hvisit, ?_⟩
  cases tree <;> cases h <;> rfl

/-- The tree of an accepted rule text has passed the allowlist and the node ceiling. -/
theorem validateSource_eq_ok {py : Python} (h : validateSource py source = .ok body) :
    RuleValidator.visit py body = .ok () ∧ 1 + body.walk ≤ maxNodes := by
  obtain ⟨tree, htree, h⟩ := bind_eq_ok.mp h
  obtain ⟨hvisit, rfl⟩ := validate_eq_ok (mapError_eq_ok.mp h)
  exact ⟨hvisit, (parse_eq_ok htree).2⟩

theorem parse_of_validateSource {py : Python} (h : validateSource py source = .ok body) :
    parse py source = .ok body := by
  obtain ⟨tree, htree, h⟩ := bind_eq_ok.mp h
  obtain ⟨-, rfl⟩ := validate_eq_ok (mapError_eq_ok.mp h)
  exact htree

theorem astParse_of_validateSource {py : Python} (h : validateSource py source = .ok body) :
    py.astParse (strip source) = .tree body :=
  (parse_eq_ok (parse_of_validateSource h)).1

end ComplyLayer
