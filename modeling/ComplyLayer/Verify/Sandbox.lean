import ComplyLayer.Dsl.Interpreter
import ComplyLayer.Theory.Traced

/-!
# The sandbox

The validator and the interpreter are two case analyses of one tree. `Node.Permitted` is what the
rule language is, one node at a time: the validator lets through only trees that are `Lawful`,
permitted at every node (`lawful_of_visit`), and the interpreter, written again with a mark at
each branch it falls through to, passes only the marks it should on a lawful tree (`passes_trace`).
-/

namespace ComplyLayer

open Theory Traced

/-! ## The language -/

/-- The class of a node and of the nodes without sub-expressions that `ast.walk` finds right below
it: operators, contexts and keywords. -/
def Node.classes : Node → List String
  | n@(constant _) | n@(attributeOf _ _) | n@(subscript _ _) | n@(other _ _ _) => [n.typeName]
  | n@(name _) | n@(list _) | n@(tuple _) => [n.typeName, "Load"]
  | n@(boolOp op _) => [n.typeName, op.typeName]
  | n@(unaryOp op _) => [n.typeName, op.typeName]
  | n@(binOp _ op _) => [n.typeName, op.typeName]
  | n@(compare _ comparators) => n.typeName :: comparators.map fun p => p.1.typeName
  | n@(call _ _ keywords) => n.typeName :: keywords.map fun _ => "keyword"

/-- A `bool`, a `str`, or an `int` of at most `maxNumberDigits` digits. -/
def Value.IsLiteral : Value → Prop
  | .bool _ | .str _ => True
  | .int n => (toString n.natAbs).length ≤ maxNumberDigits
  | _ => False

/-- An ASCII identifier that starts with a letter. -/
def IsPlainName (id : String) : Prop :=
  ∃ first rest, id.toList = first :: rest ∧ first.isAlpha ∧ ∀ c ∈ rest, c.isAlphanum ∨ c = '_'

/-- A call of a function in `specs`, with its positional arity, and distinct keywords of its
set. -/
def IsSpecCall (func : Node) (args : List Node) (keywords : List (Option String × Node)) : Prop :=
  ∃ spec ∈ specs, func = .name spec.name ∧ args.length = spec.positional ∧
    (∀ p ∈ keywords, ∃ arg ∈ spec.keywords, p.1 = some arg) ∧ (keywords.map Prod.fst).Nodup

/-- What a node of a permitted class may hold. Every permitted class has a constructor of its
own. -/
def Node.IsWellFormed : Node → Prop
  | constant value => value.IsLiteral
  | name id => IsPlainName id
  | call func args keywords => IsSpecCall func args keywords
  | other _ _ _ => False
  | _ => True

/-- A node the rule language has. -/
structure Node.Permitted (n : Node) : Prop where
  classes : ∀ kind ∈ n.classes, kind ∈ allowedNodes
  wellFormed : n.IsWellFormed

/-- A tree that is permitted at every node. -/
def Node.Lawful (n : Node) : Prop := ∀ m : Node, m.Under n → m.Permitted

theorem Node.Lawful.permitted {n : Node} (h : n.Lawful) : n.Permitted := h n .refl

theorem Node.Lawful.children {n : Node} (h : n.Lawful) : ∀ c ∈ n.children, c.Lawful :=
  fun _ hc m hm => h m (.child hc hm)

/-! ## What the validator lets through -/

namespace RuleValidator

theorem isAlpha_of_isAsciiLetter (h : isAsciiLetter c = true) : c.isAlpha = true := by
  simp only [isAsciiLetter, Bool.or_eq_true, Bool.and_eq_true, decide_eq_true_eq, Char.le_def] at h
  change (c.isUpper || c.isLower) = true
  rw [Bool.or_eq_true]
  rcases h with ⟨hl, hu⟩ | ⟨hl, hu⟩
  · right
    exact (Bool.and_eq_true ..).mpr ⟨decide_eq_true hl, decide_eq_true hu⟩
  · left
    exact decide_eq_true ⟨hl, hu⟩

theorem isPlainName_of_isAsciiIdentifier {id : String} (h : isAsciiIdentifier id = true) :
    IsPlainName id := by
  unfold isAsciiIdentifier at h
  split at h
  · cases h
  · rename_i first rest heq
    rw [Bool.and_eq_true, List.all_eq_true] at h
    refine ⟨first, rest, heq, isAlpha_of_isAsciiLetter h.1, fun c hc => ?_⟩
    have hchar := h.2 c hc
    rw [Bool.or_eq_true, Bool.or_eq_true, beq_iff_eq] at hchar
    rcases hchar with (hletter | hdigit) | hunderscore
    · left
      rw [Char.isAlphanum, isAlpha_of_isAsciiLetter hletter, Bool.true_or]
    · left
      have hdigit : c.isDigit = true := by
        simpa [Char.isDigit, Char.le_def] using hdigit
      rw [Char.isAlphanum, hdigit, Bool.or_true]
    · exact .inr hunderscore

theorem visitName_ok {py : Python} {id : String} (h : visitName py id = .ok ()) :
    IsPlainName id := by
  unfold visitName at h
  split at h
  · exact isPlainName_of_isAsciiIdentifier ‹_›
  · split at h <;> cases h

theorem visitConstant_ok (h : visitConstant value = .ok ()) : value.IsLiteral := by
  cases value with
  | bool _ | str _ => trivial
  | int n =>
    rw [visitConstant] at h
    split at h
    · cases h
    · exact Nat.not_lt.mp ‹_›
  | _ => cases h

theorem typeName_mem_of_visit {py : Python} (h : visit py n = .ok ()) :
    n.typeName ∈ allowedNodes := by
  cases n with
  | attributeOf _ _ | subscript _ _ | other _ _ _ => cases h
  | _ => simp [Node.typeName, allowedNodes]

/-- An accepted node is permitted, and every node right below it was visited and accepted. -/
theorem visit_ok {py : Python} (h : visit py n = .ok ()) :
    n.Permitted ∧ ∀ c ∈ n.children, visit py c = .ok () := by
  have hname := typeName_mem_of_visit h
  cases n with
  | constant value =>
    rw [visit] at h
    exact ⟨⟨by simp [Node.classes, Node.typeName, allowedNodes], visitConstant_ok h⟩,
      fun _ hc => absurd hc List.not_mem_nil⟩
  | name id =>
    rw [visit] at h
    exact ⟨⟨by simp [Node.classes, Node.typeName, allowedNodes], visitName_ok h⟩,
      fun _ hc => absurd hc List.not_mem_nil⟩
  | boolOp op values =>
    rw [visit, seq_eq_ok, genericVisit_eq_ok, visitAll_eq_ok] at h
    obtain ⟨hop, hvalues⟩ := h
    refine ⟨⟨?_, trivial⟩, hvalues⟩
    exact List.forall_mem_cons.mpr ⟨hname, List.forall_mem_singleton.mpr hop⟩
  | unaryOp op operand =>
    rw [visit, seq_eq_ok, genericVisit_eq_ok] at h
    obtain ⟨hop, hoperand⟩ := h
    refine ⟨⟨?_, trivial⟩, List.forall_mem_singleton.mpr hoperand⟩
    exact List.forall_mem_cons.mpr ⟨hname, List.forall_mem_singleton.mpr hop⟩
  | binOp left op right =>
    rw [visit, seq_eq_ok, seq_eq_ok, seq_eq_ok, genericVisit_eq_ok] at h
    obtain ⟨-, hleft, hop, hright⟩ := h
    refine ⟨⟨?_, trivial⟩,
      List.forall_mem_cons.mpr ⟨hleft, List.forall_mem_singleton.mpr hright⟩⟩
    exact List.forall_mem_cons.mpr ⟨hname, List.forall_mem_singleton.mpr hop⟩
  | compare left comparators =>
    rw [visit, seq_eq_ok, seq_eq_ok, visitOperators_eq_ok, visitComparators_eq_ok] at h
    obtain ⟨hleft, hops, hcomparators⟩ := h
    refine ⟨⟨?_, trivial⟩, List.forall_mem_cons.mpr ⟨hleft, hcomparators⟩⟩
    exact List.forall_mem_cons.mpr ⟨hname, List.forall_mem_map.mpr hops⟩
  | call func args keywords =>
    obtain ⟨spec, hspec, hfunc, harity, hknown, hnodup, hargs, hkeywords⟩ := visit_call_ok h
    rw [visit, seq_eq_ok, seq_eq_ok] at h
    refine ⟨⟨?_, spec, hspec, hfunc, harity, hknown, hnodup⟩, List.forall_mem_cons.mpr ⟨h.2.1, ?_⟩⟩
    · exact List.forall_mem_cons.mpr ⟨hname, List.forall_mem_map.mpr fun _ _ => by decide⟩
    · exact List.forall_mem_append.mpr
        ⟨visitAll_eq_ok.mp hargs, visitKeywords_eq_ok.mp hkeywords⟩
  | list elts | tuple elts =>
    rw [visit, visitAll_eq_ok] at h
    exact ⟨⟨by simp [Node.classes, Node.typeName, allowedNodes], trivial⟩, h⟩
  | attributeOf _ _ | subscript _ _ | other _ _ _ => cases h

theorem lawful_of_visit {py : Python} (h : visit py n = .ok ()) : n.Lawful := by
  intro m hm
  induction hm with
  | refl => exact (visit_ok h).1
  | child hc _ ih => exact ih ((visit_ok h).2 _ hc)

end RuleValidator

/-! ## Where the interpreter can get to -/

/-- The branches of the interpreter that take what the others left, and the call of a function. -/
inductive Branch where
  /-- `cannot evaluate`, the end of `_eval`. -/
  | cannotEvaluate (kind : String)
  /-- The end of `_eval_unaryop`. -/
  | finalUnary (op : UnaryOperator)
  /-- The last `else` of `_eval_binop`. -/
  | finalBinop (op : Operator)
  /-- The end of `_compare`. -/
  | finalCompare (op : CmpOp)
  /-- `function(*args, **kwargs)`. -/
  | called (func : Node) (function : Function)

namespace Interpreter

def unaryopMarks : UnaryOperator → List Branch
  | .not => []
  | op => [.finalUnary op]

def binopMarks : Operator → Value → Value → List Branch
  | .add, _, _ | .sub, _, _ | .mult, _, _ | .floorDiv, _, _ => []
  | op, .int _, .int _ => [.finalBinop op]
  | _, _, _ => []

def compareMarks (op : CmpOp) (left right : Value) : List Branch :=
  if op ∈ [.in, .notIn, .eq, .notEq, .lt, .ltE, .gt] then []
  else if left.sameOrderableKind right then [.finalCompare op]
  else []

abbrev Trace (α : Type) := Traced Branch Raised α

mutual
/-- `eval`, with its marks. -/
def trace (context : EvaluationContext) (limit : Nat) : Node → Trace Value
  | .constant value => do
    lift (tick limit)
    pure value
  | .name id => do
    lift (tick limit)
    match context.facts.get? id with
    | some value => pure value
    | none => lift (fail (.unknownFact id))
  | .boolOp .and values => do
    lift (tick limit)
    traceAnd context limit values
  | .boolOp .or values => do
    lift (tick limit)
    traceOr context limit values
  | .unaryOp op operand => do
    lift (tick limit)
    let value ← trace context limit operand
    passing (unaryopMarks op)
    lift (unaryop op value)
  | .binOp left op right => do
    lift (tick limit)
    let l ← trace context limit left
    let r ← trace context limit right
    passing (binopMarks op l r)
    lift (binop op l r)
  | .compare left comparators => do
    lift (tick limit)
    let l ← trace context limit left
    traceCompare context limit l comparators
  | .call func args keywords => do
    lift (tick limit)
    let function ← lift (callee context func)
    let values ← traceAll context limit args
    let kwargs ← traceKeywords context limit keywords
    passing [.called func function]
    lift (Counted.lift (function values (Dict.ofList kwargs)))
  | .list elts | .tuple elts => do
    lift (tick limit)
    let values ← traceAll context limit elts
    pure (.tuple values)
  | .attributeOf _ _ => do
    lift (tick limit)
    passing [.cannotEvaluate "Attribute"]
    lift (fail (.cannotEvaluate "Attribute"))
  | .subscript _ _ => do
    lift (tick limit)
    passing [.cannotEvaluate "Subscript"]
    lift (fail (.cannotEvaluate "Subscript"))
  | .other kind _ _ => do
    lift (tick limit)
    passing [.cannotEvaluate kind]
    lift (fail (.cannotEvaluate kind))

def traceAll (context : EvaluationContext) (limit : Nat) : List Node → Trace (List Value)
  | [] => pure []
  | node :: rest => do
    let value ← trace context limit node
    let values ← traceAll context limit rest
    pure (value :: values)

def traceKeywords (context : EvaluationContext) (limit : Nat) :
    List (Option String × Node) → Trace (List (String × Value))
  | [] => pure []
  | (none, _) :: rest => traceKeywords context limit rest
  | (some arg, node) :: rest => do
    let value ← trace context limit node
    let values ← traceKeywords context limit rest
    pure ((arg, value) :: values)

def traceAnd (context : EvaluationContext) (limit : Nat) : List Node → Trace Value
  | [] => pure (.bool true)
  | node :: rest => do
    let value ← trace context limit node
    if value.truthy then traceAnd context limit rest else pure (.bool false)

def traceOr (context : EvaluationContext) (limit : Nat) : List Node → Trace Value
  | [] => pure (.bool false)
  | node :: rest => do
    let value ← trace context limit node
    if value.truthy then pure (.bool true) else traceOr context limit rest

def traceCompare (context : EvaluationContext) (limit : Nat) (left : Value) :
    List (CmpOp × Node) → Trace Value
  | [] => pure (.bool true)
  | (op, node) :: rest => do
    let right ← trace context limit node
    passing (compareMarks op left right)
    let result ← lift (compareOne op left right)
    if result then traceCompare context limit right rest else pure (.bool false)
end

variable {context : EvaluationContext} {limit : Nat}

/-! ### The marks change nothing -/

section
variable {nodes : List Node} (h : ∀ c ∈ nodes, (trace context limit c).erase = eval context limit c)
include h

theorem erase_traceAll : (traceAll context limit nodes).erase = evalAll context limit nodes := by
  induction nodes with
  | nil => rfl
  | cons node rest ih =>
    obtain ⟨hnode, hrest⟩ := List.forall_mem_cons.mp h
    rw [traceAll, evalAll]
    simp only [erase_bind, erase_pure, hnode, ih hrest]

theorem erase_traceAnd : (traceAnd context limit nodes).erase = evalAnd context limit nodes := by
  induction nodes with
  | nil => rfl
  | cons node rest ih =>
    obtain ⟨hnode, hrest⟩ := List.forall_mem_cons.mp h
    rw [traceAnd, evalAnd, erase_bind, hnode]
    congr 1
    funext value
    split
    · exact ih hrest
    · rfl

theorem erase_traceOr : (traceOr context limit nodes).erase = evalOr context limit nodes := by
  induction nodes with
  | nil => rfl
  | cons node rest ih =>
    obtain ⟨hnode, hrest⟩ := List.forall_mem_cons.mp h
    rw [traceOr, evalOr, erase_bind, hnode]
    congr 1
    funext value
    split
    · rfl
    · exact ih hrest

end

theorem erase_traceKeywords
    (h : ∀ c ∈ keywords.map Prod.snd, (trace context limit c).erase = eval context limit c) :
    (traceKeywords context limit keywords).erase = evalKeywords context limit keywords := by
  induction keywords with
  | nil => rfl
  | cons p rest ih =>
    obtain ⟨hnode, hrest⟩ := List.forall_mem_cons.mp h
    obtain ⟨arg, node⟩ := p
    cases arg with
    | none => exact ih hrest
    | some arg =>
      rw [traceKeywords, evalKeywords]
      simp only [erase_bind, erase_pure, hnode, ih hrest]

theorem erase_traceCompare
    (h : ∀ c ∈ comparators.map Prod.snd, (trace context limit c).erase = eval context limit c) :
    (traceCompare context limit left comparators).erase =
      evalCompare context limit left comparators := by
  induction comparators generalizing left with
  | nil => rfl
  | cons p rest ih =>
    obtain ⟨hnode, hrest⟩ := List.forall_mem_cons.mp h
    obtain ⟨op, node⟩ := p
    rw [traceCompare, evalCompare, erase_bind, hnode]
    congr 1
    funext right
    simp only [erase_bind, erase_passing, erase_lift, pure_bind]
    congr 1
    funext result
    split
    · exact ih hrest
    · rfl

/-- The interpreter with marks is the interpreter. -/
theorem erase_trace (node : Node) : (trace context limit node).erase = eval context limit node := by
  induction node using Node.induction with
  | h node ih =>
    cases node with
    | constant value =>
      rw [trace, eval, erase_bind, erase_lift]
      rfl
    | name id =>
      rw [trace, eval, erase_bind, erase_lift]
      cases context.facts.get? id <;> rfl
    | boolOp op values =>
      replace ih : ∀ c ∈ values, (trace context limit c).erase = eval context limit c := ih
      cases op with
      | and => rw [trace, eval, erase_bind, erase_traceAnd ih, erase_lift]
      | or => rw [trace, eval, erase_bind, erase_traceOr ih, erase_lift]
    | unaryOp op operand =>
      have hoperand := ih operand (List.mem_singleton_self _)
      rw [trace, eval]
      simp only [erase_bind, erase_lift, erase_passing, pure_bind, hoperand]
    | binOp left op right =>
      have hleft := ih left List.mem_cons_self
      have hright := ih right (List.mem_cons_of_mem _ List.mem_cons_self)
      rw [trace, eval]
      simp only [erase_bind, erase_lift, erase_passing, pure_bind, hleft, hright]
    | compare left comparators =>
      obtain ⟨hleft, hcomparators⟩ := List.forall_mem_cons.mp ih
      rw [trace, eval]
      simp only [erase_bind, erase_lift, hleft, erase_traceCompare hcomparators]
    | call func args keywords =>
      obtain ⟨-, h⟩ := List.forall_mem_cons.mp ih
      obtain ⟨hargs, hkeywords⟩ := List.forall_mem_append.mp h
      rw [trace, eval]
      simp only [erase_bind, erase_lift, erase_passing, pure_bind, erase_traceAll hargs,
        erase_traceKeywords hkeywords]
    | list elts | tuple elts =>
      replace ih : ∀ c ∈ elts, (trace context limit c).erase = eval context limit c := ih
      rw [trace, eval]
      simp only [erase_bind, erase_lift, erase_pure, erase_traceAll ih]
    | attributeOf _ _ | subscript _ _ | other _ _ _ =>
      rw [trace, eval]
      simp only [erase_bind, erase_lift, erase_passing, pure_bind]

/-! ### The marks of a lawful tree -/

end Interpreter

/-- What the interpreter may pass on a tree of the language: never the end of `_eval`, the other
ends for one operator each, and calls of what is bound under the name called. -/
def Branch.IsExpected (context : EvaluationContext) : Branch → Prop
  | cannotEvaluate _ => False
  | finalUnary op => op = .uSub
  | finalBinop op => op = .mod
  | finalCompare op => op = .gtE
  | called func function =>
    ∃ spec ∈ specs, func = .name spec.name ∧ context.functions spec.name = some function

namespace Interpreter

theorem unaryopMarks_expected (h : op.typeName ∈ allowedNodes) :
    ∀ m ∈ unaryopMarks op, m.IsExpected context := by
  cases op with
  | not => nofun
  | uSub => exact List.forall_mem_singleton.mpr rfl
  | uAdd | invert => simp [UnaryOperator.typeName, allowedNodes] at h

theorem binopMarks_expected (h : op.typeName ∈ allowedNodes) :
    ∀ m ∈ binopMarks op left right, m.IsExpected context := by
  unfold binopMarks
  split
  case h_5 =>
    intro m hm
    cases List.mem_singleton.mp hm
    cases op <;> simp_all [Operator.typeName, allowedNodes, Branch.IsExpected]
  all_goals nofun

theorem compareMarks_expected (h : op.typeName ∈ allowedNodes) :
    ∀ m ∈ compareMarks op left right, m.IsExpected context := by
  unfold compareMarks
  split
  · nofun
  · split
    · intro m hm
      cases List.mem_singleton.mp hm
      cases op <;> simp_all [CmpOp.typeName, allowedNodes, Branch.IsExpected]
    · nofun

theorem passes_callee (h : IsSpecCall func args keywords)
    (hc : (callee context func).run n = (.ok function, k)) :
    Branch.IsExpected context (.called func function) := by
  obtain ⟨spec, hspec, rfl, -⟩ := h
  refine ⟨spec, hspec, rfl, ?_⟩
  rw [callee] at hc
  cases hf : context.functions spec.name with
  | none => rw [hf] at hc; cases hc
  | some f => rw [hf] at hc; cases hc; rfl

section
variable {P : Branch → Prop} {nodes : List Node} (h : ∀ c ∈ nodes, Passes P (trace context limit c))
include h

theorem passes_traceAll : Passes P (traceAll context limit nodes) := by
  induction nodes with
  | nil => exact passes_pure _
  | cons node rest ih =>
    obtain ⟨hnode, hrest⟩ := List.forall_mem_cons.mp h
    rw [traceAll]
    exact hnode.bind fun _ => (ih hrest).bind fun _ => passes_pure _

theorem passes_traceAnd : Passes P (traceAnd context limit nodes) := by
  induction nodes with
  | nil => exact passes_pure _
  | cons node rest ih =>
    obtain ⟨hnode, hrest⟩ := List.forall_mem_cons.mp h
    rw [traceAnd]
    refine hnode.bind fun value => ?_
    split
    · exact ih hrest
    · exact passes_pure _

theorem passes_traceOr : Passes P (traceOr context limit nodes) := by
  induction nodes with
  | nil => exact passes_pure _
  | cons node rest ih =>
    obtain ⟨hnode, hrest⟩ := List.forall_mem_cons.mp h
    rw [traceOr]
    refine hnode.bind fun value => ?_
    split
    · exact passes_pure _
    · exact ih hrest

end

theorem passes_traceKeywords {P : Branch → Prop}
    (h : ∀ c ∈ keywords.map Prod.snd, Passes P (trace context limit c)) :
    Passes P (traceKeywords context limit keywords) := by
  induction keywords with
  | nil => exact passes_pure _
  | cons p rest ih =>
    obtain ⟨hnode, hrest⟩ := List.forall_mem_cons.mp h
    obtain ⟨arg, node⟩ := p
    cases arg with
    | none => exact ih hrest
    | some arg =>
      rw [traceKeywords]
      exact hnode.bind fun _ => (ih hrest).bind fun _ => passes_pure _

theorem passes_traceCompare
    (h : ∀ c ∈ comparators.map Prod.snd, Passes (Branch.IsExpected context) (trace context limit c))
    (hops : ∀ p ∈ comparators, p.1.typeName ∈ allowedNodes) :
    Passes (Branch.IsExpected context) (traceCompare context limit left comparators) := by
  induction comparators generalizing left with
  | nil => exact passes_pure _
  | cons p rest ih =>
    obtain ⟨hnode, hrest⟩ := List.forall_mem_cons.mp h
    obtain ⟨hop, hrestOps⟩ := List.forall_mem_cons.mp hops
    obtain ⟨op, node⟩ := p
    rw [traceCompare]
    refine hnode.bind fun right => ?_
    refine (passes_passing (compareMarks_expected hop)).bind fun _ => ?_
    refine (passes_lift _).bind fun result => ?_
    split
    · exact ih hrest hrestOps
    · exact passes_pure _

theorem passes_trace (node : Node) (h : node.Lawful) :
    Passes (Branch.IsExpected context) (trace context limit node) := by
  induction node using Node.induction with
  | h node ih =>
    replace ih := fun c hc => ih c hc (h.children c hc)
    have hclasses := h.permitted.classes
    have hwell := h.permitted.wellFormed
    cases node with
    | constant value =>
      rw [trace]
      exact (passes_lift _).bind fun _ => passes_pure _
    | name id =>
      rw [trace]
      refine (passes_lift _).bind fun _ => ?_
      split
      · exact passes_pure _
      · exact passes_lift _
    | boolOp op values =>
      cases op with
      | and =>
        rw [trace]
        exact (passes_lift _).bind fun _ => passes_traceAnd ih
      | or =>
        rw [trace]
        exact (passes_lift _).bind fun _ => passes_traceOr ih
    | unaryOp op operand =>
      have hop := List.forall_mem_singleton.mp (List.forall_mem_cons.mp hclasses).2
      rw [trace]
      refine (passes_lift _).bind fun _ => ?_
      refine (ih operand (List.mem_singleton_self _)).bind fun value => ?_
      exact (passes_passing (unaryopMarks_expected hop)).bind fun _ => passes_lift _
    | binOp left op right =>
      have hop := List.forall_mem_singleton.mp (List.forall_mem_cons.mp hclasses).2
      rw [trace]
      refine (passes_lift _).bind fun _ => ?_
      refine (ih left List.mem_cons_self).bind fun l => ?_
      refine (ih right (List.mem_cons_of_mem _ List.mem_cons_self)).bind fun r => ?_
      exact (passes_passing (binopMarks_expected hop)).bind fun _ => passes_lift _
    | compare left comparators =>
      have hops := List.forall_mem_map.mp (List.forall_mem_cons.mp hclasses).2
      obtain ⟨hleft, hcomparators⟩ := List.forall_mem_cons.mp ih
      rw [trace]
      refine (passes_lift _).bind fun _ => ?_
      exact hleft.bind fun _ => passes_traceCompare hcomparators hops
    | call func args keywords =>
      obtain ⟨-, hrest⟩ := List.forall_mem_cons.mp ih
      obtain ⟨hargs, hkeywords⟩ := List.forall_mem_append.mp hrest
      rw [trace]
      refine (passes_lift _).bind fun _ => ?_
      refine (passes_lift _).bind_of_ok fun n function k hcallee => ?_
      refine (passes_traceAll hargs).bind fun values => ?_
      refine (passes_traceKeywords hkeywords).bind fun kwargs => ?_
      have hmark := passes_callee hwell hcallee
      exact (passes_passing (List.forall_mem_singleton.mpr hmark)).bind fun _ => passes_lift _
    | list elts | tuple elts =>
      rw [trace]
      refine (passes_lift _).bind fun _ => ?_
      exact (passes_traceAll ih).bind fun _ => passes_pure _
    | attributeOf _ _ | subscript _ _ =>
      have hname := (List.forall_mem_cons.mp hclasses).1
      simp [Node.typeName, allowedNodes] at hname
    | other _ _ _ => exact hwell.elim

end Interpreter

/-- The sandbox accepts only the language. -/
theorem sandbox_closed {py : Python} {source : String} (h : validateSource py source = .ok body) :
    body.Lawful ∧ ∀ (context : EvaluationContext) (limit n : Nat),
      ((Interpreter.trace context limit body).run n).1 =
          (Interpreter.eval context limit body).run n ∧
        ∀ m ∈ ((Interpreter.trace context limit body).run n).2, m.IsExpected context := by
  have hlawful := RuleValidator.lawful_of_visit (validateSource_eq_ok h).1
  refine ⟨hlawful, fun context limit n => ⟨?_, Interpreter.passes_trace body hlawful n⟩⟩
  rw [← Interpreter.erase_trace]
  rfl

/-- `abs(-amount_minor % 7) >= 1`. -/
def remainderRule : Node :=
  .compare (.call (.name "abs")
      [.binOp (.unaryOp .uSub (.name "amount_minor")) .mod (.constant (.int 7))] [])
    [(.gtE, .constant (.int 1))]

theorem sandbox_closed_remainder :
    remainderRule.Lawful ∧ ∀ (context : EvaluationContext) (limit n : Nat),
      ((Interpreter.trace context limit remainderRule).run n).1 =
          (Interpreter.eval context limit remainderRule).run n ∧
        ∀ m ∈ ((Interpreter.trace context limit remainderRule).run n).2, m.IsExpected context :=
  sandbox_closed (show validateSource (.reading "abs(-amount_minor % 7) >= 1" remainderRule)
    "abs(-amount_minor % 7) >= 1" = .ok remainderRule from rfl)

/-- Three of the marks of `remainderRule`, in the order it passes them, and the call between. -/
example : ((Interpreter.trace ⟨.ofList [("amount_minor", .int 3)], fun _ => some absValue⟩ maxSteps
    remainderRule).run 0).2 = [.finalUnary .uSub, .finalBinop .mod,
      .called (.name "abs") absValue, .finalCompare .gtE] := rfl

end ComplyLayer
