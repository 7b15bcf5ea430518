import ComplyLayer.Dsl.Value

/-!
# Expression trees

`ast.parse(source, mode="eval")` as the validator and the interpreter see it. The node classes
the rule language permits, and the two it names in its refusals, have constructors; every other
expression class is `other`, under its class name. A comparison keeps each operator with its
operand and a call keeps each keyword with its value, so the two lists of the Python node cannot
disagree in length.
-/

namespace ComplyLayer

inductive BoolOperator where
  | and | or
  deriving DecidableEq, Repr

inductive UnaryOperator where
  | not | uSub | uAdd | invert
  deriving DecidableEq, Repr

inductive Operator where
  | add | sub | mult | matMult | div | mod | pow | lShift | rShift | bitOr | bitXor | bitAnd
  | floorDiv
  deriving DecidableEq, Repr

inductive CmpOp where
  | eq | notEq | lt | ltE | gt | gtE | is | isNot | in | notIn
  deriving DecidableEq, Repr

inductive Node where
  | constant (value : Value)
  | name (id : String)
  | boolOp (op : BoolOperator) (values : List Node)
  | unaryOp (op : UnaryOperator) (operand : Node)
  | binOp (left : Node) (op : Operator) (right : Node)
  | compare (left : Node) (comparators : List (CmpOp × Node))
  | call (func : Node) (args : List Node) (keywords : List (Option String × Node))
  | list (elts : List Node)
  | tuple (elts : List Node)
  | attributeOf (value : Node) (attr : String)
  | subscript (value slice : Node)
  /-- Any other class, with how many auxiliary nodes it has beside its sub-expressions. -/
  | other (kind : String) (auxiliary : Nat) (children : List Node)

namespace Node

/-- `type(node).__name__`. -/
def typeName : Node → String
  | constant _ => "Constant"
  | name _ => "Name"
  | boolOp _ _ => "BoolOp"
  | unaryOp _ _ => "UnaryOp"
  | binOp _ _ _ => "BinOp"
  | compare _ _ => "Compare"
  | call _ _ _ => "Call"
  | list _ => "List"
  | tuple _ => "Tuple"
  | attributeOf _ _ => "Attribute"
  | subscript _ _ => "Subscript"
  | other kind _ _ => kind

mutual
/-- What `ast.walk` counts under a node: the node, its operators and contexts, and below. -/
def walk : Node → Nat
  | constant _ => 1
  | name _ => 2
  | boolOp _ values => 2 + walkAll values
  | unaryOp _ operand => 2 + operand.walk
  | binOp left _ right => 2 + left.walk + right.walk
  | compare left comparators => 1 + left.walk + walkComparators comparators
  | call func args keywords => 1 + func.walk + walkAll args + walkKeywords keywords
  | list elts | tuple elts => 2 + walkAll elts
  | attributeOf value _ => 2 + value.walk
  | subscript value slice => 2 + value.walk + slice.walk
  | other _ auxiliary children => 1 + auxiliary + walkAll children

def walkAll : List Node → Nat
  | [] => 0
  | node :: rest => node.walk + walkAll rest

def walkComparators : List (CmpOp × Node) → Nat
  | [] => 0
  | (_, node) :: rest => 1 + node.walk + walkComparators rest

def walkKeywords : List (Option String × Node) → Nat
  | [] => 0
  | (_, node) :: rest => 1 + node.walk + walkKeywords rest
end

/-- The sub-expressions right below a node, in the order of its fields. -/
def children : Node → List Node
  | constant _ | name _ => []
  | boolOp _ values => values
  | unaryOp _ operand => [operand]
  | binOp left _ right => [left, right]
  | compare left comparators => left :: comparators.map Prod.snd
  | call func args keywords => func :: (args ++ keywords.map Prod.snd)
  | list elts | tuple elts => elts
  | attributeOf value _ => [value]
  | subscript value slice => [value, slice]
  | other _ _ children => children

/-- `n` is `m` or a node somewhere below it. -/
inductive Under : Node → Node → Prop
  | refl : Under n n
  | child : c ∈ m.children → Under n c → Under n m

/-- Induction on a tree: what holds of a node whenever it holds of the nodes right below it holds
of every node. -/
theorem induction {motive : Node → Prop}
    (h : ∀ n : Node, (∀ c ∈ n.children, motive c) → motive n) (n : Node) : motive n := by
  apply @Node.rec motive (fun nodes => ∀ c ∈ nodes, motive c)
    (fun comparators => ∀ c ∈ comparators.map Prod.snd, motive c)
    (fun keywords => ∀ c ∈ keywords.map Prod.snd, motive c)
    (fun comparator => motive comparator.2) (fun keyword => motive keyword.2)
  case constant | name => exact fun _ => h _ (by simp [children])
  case boolOp => exact fun _ _ ih => h _ ih
  case unaryOp => exact fun _ _ ih => h _ (by simpa [children] using ih)
  case binOp => exact fun _ _ _ ihl ihr => h _ (by simpa [children] using ⟨ihl, ihr⟩)
  case compare => exact fun _ _ ih ihs => h _ (List.forall_mem_cons.mpr ⟨ih, ihs⟩)
  case call =>
    intro func args keywords ih iha ihk
    apply h
    exact List.forall_mem_cons.mpr ⟨ih, List.forall_mem_append.mpr ⟨iha, ihk⟩⟩
  case list | tuple => exact fun _ ih => h _ ih
  case attributeOf => exact fun _ _ ih => h _ (by simpa [children] using ih)
  case subscript => exact fun _ _ ihv ihs => h _ (by simpa [children] using ⟨ihv, ihs⟩)
  case other => exact fun _ _ _ ih => h _ ih
  case mk | mk => exact fun _ _ ih => ih
  -- What remains are the empty and the extended list, for each of the three kinds of list.
  all_goals first
    | exact fun _ _ ih ihs => List.forall_mem_cons.mpr ⟨ih, ihs⟩
    | simp

end Node

end ComplyLayer
