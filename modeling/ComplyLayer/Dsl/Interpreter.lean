import ComplyLayer.Dsl.Parser
import ComplyLayer.Theory.Counted

/-!
# The interpreter

`dsl/interpreter.py`: evaluating a tree against one transaction, under a step budget. The step
count is the state of `Counted`, so it is known after an exception as well.
-/

namespace ComplyLayer

open Theory

/-- Everything a rule may see. -/
structure EvaluationContext where
  facts : Dict String Value
  functions : String → Option Function

def maxResultBits : Nat := 512

namespace Interpreter

abbrev Eval (α : Type) := Counted Raised α

def fail (e : RuleEvaluationError) : Eval α := Counted.raise (.evaluation e)

def tick (limit : Nat) : Eval Unit :=
  Counted.tick limit (.evaluation (.stepBudgetExceeded limit))

/-- `_guard_magnitude`, and the value it lets through. -/
def guardMagnitude (n : Int) : Eval Value :=
  if maxResultBits < Value.bitLength n then
    fail (.resultTooLarge (Value.bitLength n) maxResultBits)
  else pure (.int n)

/-- `_guarded_multiply`, checked before multiplying. -/
def guardedMultiply (m n : Int) : Eval Int :=
  let bits := Value.bitLength m + Value.bitLength n
  if maxResultBits < bits then fail (.resultTooLarge bits maxResultBits) else pure (m * n)

/-- The operators of `_eval_binop`. Everything that is not `Add`, `Sub`, `Mult` or `FloorDiv` is
taken for `Mod`. -/
def arithmetic (op : Operator) (m n : Int) : Eval Int :=
  match op with
  | .add => pure (m + n)
  | .sub => pure (m - n)
  | .mult => guardedMultiply m n
  | .floorDiv => if n = 0 then fail .divideByZero else pure (m.fdiv n)
  | _ => if n = 0 then fail .remainderByZero else pure (m.fmod n)

def binop (op : Operator) (left right : Value) : Eval Value :=
  match left, right with
  | .int m, .int n => do
    let result ← arithmetic op m n
    guardMagnitude result
  | .int _, _ => fail (.notANumber right.typeName)
  | _, _ => fail (.notANumber left.typeName)

/-- `_eval_unaryop` after the operand. Everything that is not `Not` is taken for `USub`. -/
def unaryop (op : UnaryOperator) (value : Value) : Eval Value :=
  match op with
  | .not => pure (.bool !value.truthy)
  | _ =>
    match value with
    | .int n => pure (.int (-n))
    | _ => fail (.notANumber value.typeName)

/-- One comparison of a chain: `_compare`, and the two membership operators before it. Everything
that is not another operator is taken for `GtE`. -/
def compareOne (op : CmpOp) (left right : Value) : Eval Bool :=
  match op with
  | .in => membership left right id
  | .notIn => membership left right Bool.not
  | .eq => pure (left.pyEq right)
  | .notEq => pure (!left.pyEq right)
  | .lt => ordered left right fun l r => l.lt r
  | .ltE => ordered left right fun l r => l.le r
  | .gt => ordered left right fun l r => r.lt l
  | _ => ordered left right fun l r => r.le l
where
  membership (left right : Value) (polarity : Bool → Bool) : Eval Bool :=
    if right.isContainer then
      match left.isIn? right with
      | some contains => pure (polarity contains)
      | none => Counted.raise (.escaped .typeError)
    else fail (.uncomparable left.typeName right.typeName)
  ordered (left right : Value) (holds : Value → Value → Bool) : Eval Bool :=
    if left.sameOrderableKind right then pure (holds left right)
    else fail (.uncomparable left.typeName right.typeName)

/-- `self._context.functions.get(node.func.id)`. A callee that is not a name has no `id`. -/
def callee (context : EvaluationContext) (func : Node) : Eval Function :=
  match func with
  | .name id =>
    match context.functions id with
    | some function => pure function
    | none => fail (.notAvailable id)
  | _ => Counted.raise (.escaped .attributeError)

mutual
/-- `_eval`. -/
def eval (context : EvaluationContext) (limit : Nat) : Node → Eval Value
  | .constant value => do
    tick limit
    pure value
  | .name id => do
    tick limit
    match context.facts.get? id with
    | some value => pure value
    | none => fail (.unknownFact id)
  | .boolOp .and values => do
    tick limit
    evalAnd context limit values
  | .boolOp .or values => do
    tick limit
    evalOr context limit values
  | .unaryOp op operand => do
    tick limit
    let value ← eval context limit operand
    unaryop op value
  | .binOp left op right => do
    tick limit
    let l ← eval context limit left
    let r ← eval context limit right
    binop op l r
  | .compare left comparators => do
    tick limit
    let l ← eval context limit left
    evalCompare context limit l comparators
  | .call func args keywords => do
    tick limit
    let function ← callee context func
    let values ← evalAll context limit args
    let kwargs ← evalKeywords context limit keywords
    Counted.lift (function values (Dict.ofList kwargs))
  | .list elts | .tuple elts => do
    tick limit
    let values ← evalAll context limit elts
    pure (.tuple values)
  | .attributeOf _ _ => do
    tick limit
    fail (.cannotEvaluate "Attribute")
  | .subscript _ _ => do
    tick limit
    fail (.cannotEvaluate "Subscript")
  | .other kind _ _ => do
    tick limit
    fail (.cannotEvaluate kind)

def evalAll (context : EvaluationContext) (limit : Nat) : List Node → Eval (List Value)
  | [] => pure []
  | node :: rest => do
    let value ← eval context limit node
    let values ← evalAll context limit rest
    pure (value :: values)

/-- The keyword arguments in order, leaving out `**mapping`, whose value is not evaluated. -/
def evalKeywords (context : EvaluationContext) (limit : Nat) :
    List (Option String × Node) → Eval (List (String × Value))
  | [] => pure []
  | (none, _) :: rest => evalKeywords context limit rest
  | (some arg, node) :: rest => do
    let value ← eval context limit node
    let values ← evalKeywords context limit rest
    pure ((arg, value) :: values)

/-- `_eval_boolop` at `And`: stops at the first false operand. -/
def evalAnd (context : EvaluationContext) (limit : Nat) : List Node → Eval Value
  | [] => pure (.bool true)
  | node :: rest => do
    let value ← eval context limit node
    if value.truthy then evalAnd context limit rest else pure (.bool false)

/-- `_eval_boolop` at `Or`: stops at the first true operand. -/
def evalOr (context : EvaluationContext) (limit : Nat) : List Node → Eval Value
  | [] => pure (.bool false)
  | node :: rest => do
    let value ← eval context limit node
    if value.truthy then pure (.bool true) else evalOr context limit rest

/-- The loop of `_eval_compare`, with the value on the left of what remains of the chain. -/
def evalCompare (context : EvaluationContext) (limit : Nat) (left : Value) :
    List (CmpOp × Node) → Eval Value
  | [] => pure (.bool true)
  | (op, node) :: rest => do
    let right ← eval context limit node
    let result ← compareOne op left right
    if result then evalCompare context limit right rest else pure (.bool false)
end

/-- `Interpreter(context, limit).run(tree)`: did the rule match? -/
def run (context : EvaluationContext) (limit : Nat) (body : Node) : Eval Bool := do
  let value ← eval context limit body
  pure value.truthy

end Interpreter

end ComplyLayer
