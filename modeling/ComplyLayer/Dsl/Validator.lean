import ComplyLayer.Dsl.Functions
import ComplyLayer.Theory.Outcomes

/-!
# The allowlist

`dsl/validator.py`: every node type the rule language permits, and the checks on what a permitted
node holds.
-/

namespace ComplyLayer

open Theory

/-- `ALLOWED_NODES`, by class name. -/
def allowedNodes : List String :=
  ["Expression", "BoolOp", "And", "Or", "UnaryOp", "Not", "USub", "Compare", "Eq", "NotEq", "Lt",
    "LtE", "Gt", "GtE", "BinOp", "Add", "Sub", "Mult", "Mod", "FloorDiv", "Name", "Load",
    "Constant", "Call", "keyword", "List", "Tuple", "In", "NotIn"]

def BoolOperator.typeName : BoolOperator → String
  | and => "And"
  | or => "Or"

def UnaryOperator.typeName : UnaryOperator → String
  | not => "Not"
  | uSub => "USub"
  | uAdd => "UAdd"
  | invert => "Invert"

def Operator.typeName : Operator → String
  | add => "Add"
  | sub => "Sub"
  | mult => "Mult"
  | matMult => "MatMult"
  | div => "Div"
  | mod => "Mod"
  | pow => "Pow"
  | lShift => "LShift"
  | rShift => "RShift"
  | bitOr => "BitOr"
  | bitXor => "BitXor"
  | bitAnd => "BitAnd"
  | floorDiv => "FloorDiv"

def CmpOp.typeName : CmpOp → String
  | eq => "Eq"
  | notEq => "NotEq"
  | lt => "Lt"
  | ltE => "LtE"
  | gt => "Gt"
  | gtE => "GtE"
  | is => "Is"
  | isNot => "IsNot"
  | «in» => "In"
  | notIn => "NotIn"

def maxNumberDigits : Nat := 40

namespace RuleValidator

/-- The node type is on the allowlist. -/
def genericVisit (kind : String) : Except RuleSyntaxError Unit :=
  if kind ∈ allowedNodes then .ok () else .error (.constructNotAllowed kind)

def isAsciiLetter (c : Char) : Bool := ('a' ≤ c && c ≤ 'z') || ('A' ≤ c && c ≤ 'Z')

/-- `[A-Za-z][A-Za-z0-9_]*\Z`. -/
def isAsciiIdentifier (id : String) : Bool :=
  match id.toList with
  | [] => false
  | c :: rest => isAsciiLetter c &&
      rest.all fun d => isAsciiLetter d || ('0' ≤ d && d ≤ '9') || d == '_'

def visitName (py : Python) (id : String) : Except RuleSyntaxError Unit :=
  if isAsciiIdentifier id then .ok ()
  else if isascii id then .error (.reservedName id)
  else .error (.nonAsciiName py id)

def visitConstant : Value → Except RuleSyntaxError Unit
  | .bool _ | .str _ => .ok ()
  | .int n =>
    let digits := (toString n.natAbs).length
    if maxNumberDigits < digits then .error (.numberTooLarge digits maxNumberDigits) else .ok ()
  | value => .error (.badLiteral value)

/-- An operand arithmetic cannot have: a constant that is not a whole number, or a literal list. -/
def nonNumericOperand : Node → Bool
  | .constant value => !value.isNumber
  | .list _ | .tuple _ => true
  | _ => false

def isZero : Node → Bool
  | .constant (.int 0) => true
  | _ => false

def describe (py : Python) (node : Node) : Option String :=
  (py.unparse node).filter fun text => text.length ≤ 60

/-- The checks `visit_Call` makes on the keywords before it visits their values. -/
def checkKeywords (spec : FunctionSpec) : List String → List (Option String × Node) →
    Except RuleSyntaxError Unit
  | _, [] => .ok ()
  | _, (none, _) :: _ => .error (.constructNotAllowed "Starred")
  | seen, (some arg, _) :: rest =>
    if arg ∉ spec.keywords then .error (.unknownKeyword spec.name arg spec.sortedKeywords)
    else if arg ∈ seen then .error (.duplicateKeyword spec.name arg)
    else checkKeywords spec (arg :: seen) rest

/-- The checks `visit_Call` makes on the call itself. -/
def checkCall (py : Python) (func : Node) (args : List Node)
    (keywords : List (Option String × Node)) : Except RuleSyntaxError Unit :=
  match func with
  | .attributeOf _ _ => .error (.attributeAccess (describe py func))
  | .name id =>
    match FunctionSpec.find? id with
    | none => .error (.unknownFunction py id allowedFunctions)
    | some spec =>
      if args.length ≠ spec.positional then .error (.wrongArity id args.length spec.positional)
      else checkKeywords spec [] keywords
  | _ => .error .indirectCall

/-- The checks `visit_BinOp` makes on the operands. -/
def checkBinOp (left : Node) (op : Operator) (right : Node) : Except RuleSyntaxError Unit :=
  if nonNumericOperand left || nonNumericOperand right then .error .nonNumericOperand
  else if (op = .floorDiv || op = .mod) && isZero right then .error .divisionByZero
  else .ok ()

mutual
/-- `RuleValidator().visit(node)`. -/
def visit (py : Python) : Node → Except RuleSyntaxError Unit
  | .constant value => visitConstant value
  | .name id => visitName py id
  | .boolOp op values => do
    genericVisit op.typeName
    visitAll py values
  | .unaryOp op operand => do
    genericVisit op.typeName
    visit py operand
  | .binOp left op right => do
    checkBinOp left op right
    visit py left
    genericVisit op.typeName
    visit py right
  | .compare left comparators => do
    visit py left
    visitOperators comparators
    visitComparators py comparators
  | .call func args keywords => do
    checkCall py func args keywords
    visit py func
    visitAll py args
    visitKeywords py keywords
  | .list elts | .tuple elts => visitAll py elts
  | .attributeOf value attr => .error (.attributeAccess (describe py (.attributeOf value attr)))
  | .subscript _ _ => .error .subscript
  -- The permitted classes all have constructors of their own.
  | .other kind _ _ => .error (.constructNotAllowed kind)

def visitAll (py : Python) : List Node → Except RuleSyntaxError Unit
  | [] => .ok ()
  | node :: rest => do
    visit py node
    visitAll py rest

def visitComparators (py : Python) : List (CmpOp × Node) → Except RuleSyntaxError Unit
  | [] => .ok ()
  | (_, node) :: rest => do
    visit py node
    visitComparators py rest

def visitKeywords (py : Python) : List (Option String × Node) → Except RuleSyntaxError Unit
  | [] => .ok ()
  | (_, node) :: rest => do
    visit py node
    visitKeywords py rest

def visitOperators : List (CmpOp × Node) → Except RuleSyntaxError Unit
  | [] => .ok ()
  | (op, _) :: rest => do
    genericVisit op.typeName
    visitOperators rest
end

/-! ## What acceptance says -/

theorem genericVisit_eq_ok : genericVisit kind = .ok () ↔ kind ∈ allowedNodes := by
  unfold genericVisit
  split
  · exact iff_of_true rfl ‹_›
  · exact iff_of_false nofun ‹_›

theorem visitAll_eq_ok {py : Python} :
    visitAll py nodes = .ok () ↔ ∀ node ∈ nodes, visit py node = .ok () := by
  induction nodes with
  | nil => simp [visitAll]
  | cons node rest ih => rw [visitAll, seq_eq_ok, ih, List.forall_mem_cons]

theorem visitComparators_eq_ok {py : Python} : visitComparators py comparators = .ok () ↔
    ∀ node ∈ comparators.map Prod.snd, visit py node = .ok () := by
  induction comparators with
  | nil => simp [visitComparators]
  | cons p rest ih => rw [visitComparators, seq_eq_ok, ih, List.map_cons, List.forall_mem_cons]

theorem visitKeywords_eq_ok {py : Python} : visitKeywords py keywords = .ok () ↔
    ∀ node ∈ keywords.map Prod.snd, visit py node = .ok () := by
  induction keywords with
  | nil => simp [visitKeywords]
  | cons p rest ih => rw [visitKeywords, seq_eq_ok, ih, List.map_cons, List.forall_mem_cons]

theorem visitOperators_eq_ok : visitOperators comparators = .ok () ↔
    ∀ p ∈ comparators, p.1.typeName ∈ allowedNodes := by
  induction comparators with
  | nil => simp [visitOperators]
  | cons p rest ih =>
    rw [visitOperators, seq_eq_ok, ih, List.forall_mem_cons, genericVisit_eq_ok]

theorem checkKeywords_ok {spec : FunctionSpec}
    (h : checkKeywords spec seen keywords = .ok ()) :
    ∀ p ∈ keywords, ∃ arg ∈ spec.keywords, p.1 = some arg := by
  induction keywords generalizing seen with
  | nil => simp
  | cons p rest ih =>
    obtain ⟨arg, node⟩ := p
    cases arg with
    | none => cases h
    | some arg =>
      rw [checkKeywords] at h
      split at h
      · cases h
      · rename_i hmem
        split at h
        · cases h
        · rintro q hq
          rcases List.mem_cons.mp hq with rfl | hq
          · exact ⟨arg, not_not.mp hmem, rfl⟩
          · exact ih h q hq

/-- The keywords of an accepted call are distinct, and none was seen before them. -/
theorem checkKeywords_nodup {spec : FunctionSpec}
    (h : checkKeywords spec seen keywords = .ok ()) :
    (keywords.map Prod.fst).Nodup ∧ ∀ p ∈ keywords, ∀ arg ∈ seen, p.1 ≠ some arg := by
  induction keywords generalizing seen with
  | nil => simp
  | cons p rest ih =>
    obtain ⟨arg, node⟩ := p
    cases arg with
    | none => cases h
    | some arg =>
      rw [checkKeywords] at h
      split at h
      · cases h
      · split at h
        · cases h
        · rename_i hseen
          obtain ⟨hnodup, hfresh⟩ := ih h
          rw [List.map_cons, List.nodup_cons, List.forall_mem_cons]
          refine ⟨⟨fun hmem => ?_, hnodup⟩, fun b hb heq => ?_, fun q hq b hb => ?_⟩
          · obtain ⟨q, hq, heq⟩ := List.mem_map.mp hmem
            exact hfresh q hq arg List.mem_cons_self heq
          · exact hseen (Option.some.inj heq ▸ hb)
          · exact hfresh q hq b (List.mem_cons_of_mem _ hb)

theorem visit_call_ok {py : Python}
    (h : visit py (.call func args keywords) = .ok ()) :
    ∃ spec ∈ specs, func = .name spec.name ∧ args.length = spec.positional ∧
      (∀ p ∈ keywords, ∃ arg ∈ spec.keywords, p.1 = some arg) ∧
      (keywords.map Prod.fst).Nodup ∧ visitAll py args = .ok () ∧ visitKeywords py keywords = .ok () := by
  rw [visit, seq_eq_ok, seq_eq_ok, seq_eq_ok] at h
  obtain ⟨hcheck, -, hargs, hkeywords⟩ := h
  cases func with
  | name id =>
    simp only [checkCall] at hcheck
    cases hfind : FunctionSpec.find? id with
    | none => rw [hfind] at hcheck; cases hcheck
    | some spec =>
      rw [hfind] at hcheck
      simp only at hcheck
      split at hcheck
      · cases hcheck
      · rename_i harity
        have hname : spec.name = id := by
          simpa using List.find?_some hfind
        exact ⟨spec, List.mem_of_find?_eq_some hfind, by rw [hname], not_not.mp harity,
          checkKeywords_ok hcheck, (checkKeywords_nodup hcheck).1, hargs, hkeywords⟩
  | _ => cases hcheck

end RuleValidator

/-- Raise `RuleSyntaxError` unless every node in the tree is permitted. -/
def validate (py : Python) (body : Node) : Except RuleSyntaxError Node := do
  RuleValidator.visit py body
  match body with
  | .constant _ => .error .notACondition
  | _ => .ok body

end ComplyLayer
