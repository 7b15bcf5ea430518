import ComplyLayer.Dsl.Parser

/-!
# The structured form

`dsl/structured.py`: what the visual builder emits, rendered into rule text. A value of the
structured form is what `json.loads` returns. The renderer counts its depth up to
`MAX_STRUCTURED_DEPTH`; here it counts the levels that are left, so that at none it refuses.
-/

namespace ComplyLayer

namespace RuleSyntaxError

/-- `malformed(detail)`, for a detail that is not empty. -/
def malformedAt (detail : String) : RuleSyntaxError where
  problem := malformed.problem
  fix := malformed.fix ++ " " ++ detail

def tooMuchInput (maximum : Nat) : RuleSyntaxError where
  problem := "The rule has too many parts to build."
  fix := "Split it into two rules."
  reason := s!"a built rule cannot exceed {maximum} characters once written out"

end RuleSyntaxError

def maxStructuredDepth : Nat := maxNestingDepth

namespace Structured

open RuleSyntaxError

/-- What a renderer returns. -/
abbrev Rendered := Except RuleSyntaxError String

/-- The operators of `COMPARISONS`. -/
def comparisons : List String := [">", ">=", "<", "<=", "==", "!=", "in", "not in"]

/-- `[ -~]*\Z`. -/
def isSafeText (s : String) : Bool := s.toList.all fun c => ' ' ≤ c && c ≤ '~'

/-- `_identifier`. -/
def identifier (py : Python) : Value → Rendered
  | .str name =>
    if RuleValidator.isAsciiIdentifier name then .ok name
    else if isascii name then .error (reservedName name)
    else .error (nonAsciiName py name)
  | _ => .error (malformedAt "A name must be text.")

/-- `_quoted`. -/
def quoted (s : String) : Rendered :=
  if 100 < s.length ∨ ¬ isSafeText s ∨ '\'' ∈ s.toList ∨ '\\' ∈ s.toList then
    .error (malformedAt
      "Text values use plain letters, digits and spaces, without quotes or backslashes.")
  else .ok ("'" ++ s ++ "'")

/-- `_literal`. -/
def literal : Nat → Value → Rendered
  | 0, _ => .error (tooDeep maxStructuredDepth)
  | _ + 1, .bool _ => .error (malformedAt "Use a comparison rather than true or false.")
  | _ + 1, .int n =>
    if 512 < Value.bitLength n then
      .error (numberTooLarge (Value.bitLength n * 3 / 10 + 1) 40)
    else .ok (toString n)
  | _ + 1, .float _ | _ + 1, .negativeZero =>
    .error (malformedAt "Amounts are whole numbers of minor units (kobo, cents).")
  | _ + 1, .str s => quoted s
  | left + 1, .list items => do
    let parts ← items.mapM (literal left)
    .ok ("[" ++ ", ".intercalate parts ++ "]")
  | _ + 1, _ => .error (malformedAt "A value must be a number, text or list.")

/-- A setting of a call. One that is no object is a literal, from the top level of depth on. -/
def renderSetting (py : Python) (renderValue : Value → Rendered) (setting : String × Value) :
    Rendered :=
  match setting.2 with
  | .dict fields => do
    let key ← identifier py (.str setting.1)
    let value ← renderValue (.dict fields)
    .ok (key ++ "=" ++ value)
  | value => do
    let key ← identifier py (.str setting.1)
    let value ← literal (maxStructuredDepth + 1) value
    .ok (key ++ "=" ++ value)

/-- `_render_call`, given `_render_value` one level down. -/
def renderCall (py : Python) (renderValue : Value → Rendered) (name : Value)
    (fields : List (String × Value)) : Rendered := do
  let name ← identifier py name
  let args ← match (fields.lookup "args").getD (.dict []) with
    | .dict args => .ok args
    | _ => .error (malformedAt s!"The settings for {name} must be an object.")
  let settings ← args.mapM (renderSetting py renderValue)
  let positional ← match (fields.lookup "positional").getD (.list []) with
    | .list positional => .ok positional
    | _ => .error (malformedAt s!"The arguments for {name} must be a list.")
  let values ← positional.mapM renderValue
  .ok (name ++ "(" ++ ", ".intercalate (values ++ settings) ++ ")")

/-- `_render_value`. -/
def renderValue (py : Python) : Nat → Value → Rendered
  | 0, _ => .error (tooDeep maxStructuredDepth)
  | left + 1, .dict fields =>
    match fields.lookup "call", fields.lookup "fact" with
    | some name, _ => renderCall py (renderValue py left) name fields
    | none, some name => identifier py name
    | none, none =>
      .error (malformedAt "A value must be a number, text, list, fact or call.")
  | left + 1, value => literal (left + 1) value

/-- `_render_comparison`, given `_render_value` one level down. -/
def renderComparison (renderValue : Value → Rendered) (operand : String)
    (fields : List (String × Value)) : Rendered :=
  match fields.lookup "op" with
  | none => .ok operand
  | some (.str op) =>
    if op ∈ comparisons then
      match fields.lookup "value" with
      | some value => do
        let value ← renderValue value
        .ok (operand ++ " " ++ op ++ " " ++ value)
      | none => .error (malformedAt s!"A comparison with {op} needs a value.")
    else .error (malformedAt "That is not a comparison.")
  | some _ => .error (malformedAt "That is not a comparison.")

/-- `_render_group`, given `_render` one level down. -/
def renderGroup (render : Value → Rendered) (parts : Value) (joiner : String) (top : Bool) :
    Rendered :=
  match parts with
  | .list (part :: parts) => do
    let rendered ← (part :: parts).mapM render
    match rendered with
    | [only] => .ok only
    | rendered =>
      let joined := (" " ++ joiner ++ " ").intercalate rendered
      .ok (if top then joined else "(" ++ joined ++ ")")
  | _ => .error (malformedAt "A group needs at least one condition.")

/-- `_render`. -/
def render (py : Python) : Nat → Bool → Value → Rendered
  | 0, _, _ => .error (tooDeep maxStructuredDepth)
  | left + 1, top, .dict fields =>
    match fields.lookup "all", fields.lookup "any", fields.lookup "not", fields.lookup "call",
      fields.lookup "fact" with
    | some parts, _, _, _, _ => renderGroup (render py left false) parts "and" top
    | none, some parts, _, _, _ => renderGroup (render py left false) parts "or" top
    | none, none, some part, _, _ => do
      let part ← render py left false part
      .ok ("not (" ++ part ++ ")")
    | none, none, none, some name, _ => do
      let call ← renderCall py (renderValue py left) name fields
      renderComparison (renderValue py left) call fields
    | none, none, none, none, some name => do
      let name ← identifier py name
      renderComparison (renderValue py left) name fields
    | none, none, none, none, none =>
      .error (malformedAt "A rule part needs one of: all, any, not, fact, call.")
  | _ + 1, _, _ => .error (malformedAt "A rule part must be an object.")

/-- `to_expression`. -/
def toExpression (py : Python) (node : Value) : Rendered := do
  let rendered ← render py (maxStructuredDepth + 1) true node
  if maxSourceChars < rendered.length then .error (tooMuchInput maxSourceChars)
  else .ok rendered

end Structured

end ComplyLayer
