import ComplyLayer.Dsl.Interpreter
import ComplyLayer.Verify.Builder

/-!
# What a structured rule means

Python reads the text of a structured rule as its tree, in which the names of constants are those
constants. A conjunction is true only where each of its conditions is (`holdsIn_conjuncts`).
-/

namespace ComplyLayer

open Theory Interpreter

/-! ## Names that are constants -/

namespace Node

/-- A name as Python reads it where a name may stand. -/
def ofName (id : String) : Node :=
  if id = "True" then .constant (.bool true)
  else if id = "False" then .constant (.bool false)
  else if id = "None" then .constant .none
  else .name id

mutual
/-- The tree with the names that are constants of the language read as those. -/
def withConstants : Node → Node
  | .constant value => .constant value
  | .name id => ofName id
  | .boolOp op values => .boolOp op (withConstantsAll values)
  | .unaryOp op operand => .unaryOp op operand.withConstants
  | .binOp left op right => .binOp left.withConstants op right.withConstants
  | .compare left comparators =>
    .compare left.withConstants (withConstantsComparators comparators)
  | .call func args keywords =>
    .call func.withConstants (withConstantsAll args) (withConstantsKeywords keywords)
  | .list elts => .list (withConstantsAll elts)
  | .tuple elts => .tuple (withConstantsAll elts)
  | .attributeOf value attr => .attributeOf value.withConstants attr
  | .subscript value slice => .subscript value.withConstants slice.withConstants
  | .other kind auxiliary children => .other kind auxiliary (withConstantsAll children)

def withConstantsAll : List Node → List Node
  | [] => []
  | node :: nodes => node.withConstants :: withConstantsAll nodes

def withConstantsComparators : List (CmpOp × Node) → List (CmpOp × Node)
  | [] => []
  | (op, node) :: comparators => (op, node.withConstants) :: withConstantsComparators comparators

def withConstantsKeywords : List (Option String × Node) → List (Option String × Node)
  | [] => []
  | (arg, node) :: keywords => (arg, node.withConstants) :: withConstantsKeywords keywords
end

theorem withConstantsAll_eq (nodes : List Node) :
    withConstantsAll nodes = nodes.map withConstants := by
  induction nodes with
  | nil => rfl
  | cons node nodes ih => rw [withConstantsAll, ih, List.map_cons]

theorem length_withConstantsKeywords (keywords : List (Option String × Node)) :
    (withConstantsKeywords keywords).length = keywords.length := by
  induction keywords with
  | nil => rfl
  | cons keyword keywords ih => rw [withConstantsKeywords, List.length_cons, ih, List.length_cons]

theorem withConstants_joined (op : BoolOperator) (nodes : List Node) :
    (Grammar.joined op nodes).withConstants = Grammar.joined op (nodes.map withConstants) := by
  cases nodes with
  | nil => rfl
  | cons node nodes =>
    cases nodes with
    | nil => rfl
    | cons node' nodes =>
      change Node.boolOp op (withConstantsAll (node :: node' :: nodes)) = _
      rw [withConstantsAll_eq]
      rfl

end Node

/-- Python reads what is written of the rule as the tree of the rule, in which `True`, `False` and
`None` are constants. -/
def Python.ReadsRule (py : Python) (rule : Value) : Prop :=
  ∀ text ast, Structured.toExpression py rule = .ok text → validateSource py text = .ok ast →
    ∃ node, Structured.denotation rule = some node ∧ ast = node.withConstants

theorem Node.eq_of_ofName_eq {id id' : String} (h : ofName id = .name id') : id = id' := by
  unfold ofName at h
  split at h
  · cases h
  · split at h
    · cases h
    · split at h
      · cases h
      · exact Node.name.inj h

/-! ## Conditions -/

/-- The conditions of which all hold where the rule matches. -/
def Value.conjuncts : Value → List Value
  | .dict [("all", .list parts)] => parts
  | rule => [rule]

/-- A condition holds of what a rule sees: its tree is true there. -/
def HoldsIn (c : EvaluationContext) (limit : Nat) (condition : Value) : Prop :=
  ∃ left node i v j, Structured.tree left condition = some node ∧
    (eval c limit node.withConstants).run i = (.ok v, j) ∧ v.truthy = true

section
variable {c : EvaluationContext} {limit : Nat}

/-- All operands of a true conjunction are true. -/
theorem truthy_of_evalAnd (h : (evalAnd c limit nodes).run i = (.ok v, k)) (hv : v.truthy = true) :
    ∀ m ∈ nodes, ∃ j w k', (eval c limit m).run j = (.ok w, k') ∧ w.truthy = true := by
  induction nodes generalizing i with
  | nil => exact fun m hm => absurd hm List.not_mem_nil
  | cons node nodes ih =>
    rw [evalAnd] at h
    obtain ⟨w, k', hnode, h⟩ := Counted.run_bind_eq_ok.mp h
    split at h
    · rename_i hw
      exact List.forall_mem_cons.mpr ⟨⟨i, w, k', hnode, hw⟩, ih h⟩
    · cases h
      cases hv

theorem truthy_of_joined (h : (eval c limit (Grammar.joined .and nodes)).run i = (.ok v, k))
    (hv : v.truthy = true) :
    ∀ m ∈ nodes, ∃ j w k', (eval c limit m).run j = (.ok w, k') ∧ w.truthy = true := by
  unfold Grammar.joined at h
  split at h
  · exact List.forall_mem_singleton.mpr ⟨i, v, k, h, hv⟩
  · rw [eval] at h
    obtain ⟨_, k', -, h⟩ := Counted.run_bind_eq_ok.mp h
    exact truthy_of_evalAnd h hv

theorem denotation_all (parts : List Value) :
    Structured.denotation (.dict [("all", .list parts)]) =
      Structured.groupTree (Structured.tree maxStructuredDepth) .and (.list parts) := rfl

/-- The trees of the conditions of a conjunction. -/
theorem denotation_all_eq_some (h : Structured.denotation (.dict [("all", .list parts)]) = some node) :
    ∃ nodes, List.Forall₂ (fun part n => Structured.tree maxStructuredDepth part = some n) parts nodes ∧
      node = Grammar.joined .and nodes := by
  rw [denotation_all] at h
  cases parts with
  | nil => cases h
  | cons part parts =>
    obtain ⟨nodes, hnodes, rfl⟩ := Option.map_eq_some_iff.mp h
    exact ⟨nodes, mapM_eq_some_iff.mp hnodes, rfl⟩

/-- Where a rule is true, its conditions hold. -/
theorem holdsIn_conjuncts {rule : Value} (hnode : Structured.denotation rule = some node)
    (h : (eval c limit node.withConstants).run i = (.ok v, j)) (hv : v.truthy = true) :
    ∀ condition ∈ rule.conjuncts, HoldsIn c limit condition := by
  unfold Value.conjuncts
  split
  · rename_i parts
    intro condition hcondition
    obtain ⟨nodes, hnodes, rfl⟩ := denotation_all_eq_some hnode
    rw [Node.withConstants_joined] at h
    obtain ⟨n, hn, htree⟩ := exists_mem_of_forall₂ hnodes hcondition
    obtain ⟨i', w, j', heval, hw⟩ := truthy_of_joined h hv _ (List.mem_map_of_mem hn)
    exact ⟨maxStructuredDepth, n, i', w, j', htree, heval, hw⟩
  · exact List.forall_mem_singleton.mpr ⟨maxStructuredDepth + 1, node, i, v, j, hnode, h, hv⟩

theorem eval_of_run (h : (run c limit body).run 0 = (.ok true, k)) :
    ∃ v j, (eval c limit body).run 0 = (.ok v, j) ∧ v.truthy = true := by
  obtain ⟨v, k', heval, h⟩ := Counted.run_bind_eq_ok.mp h
  exact ⟨v, k', heval, Except.ok.inj (congrArg Prod.fst h)⟩

end

/-! ## Calls -/

theorem denotation_call (name op : String) (args : List (String × Value)) (v : Value) :
    Structured.denotation (.dict [("call", .str name), ("args", .dict args), ("op", .str op),
      ("value", v)]) = (Structured.callTree (Structured.valueTree maxStructuredDepth)
        [("call", .str name), ("args", .dict args), ("op", .str op), ("value", v)]).bind fun operand =>
          Structured.comparisonTree (Structured.valueTree maxStructuredDepth) operand
            [("call", .str name), ("args", .dict args), ("op", .str op), ("value", v)] := rfl

/-- A compared call has its settings in its tree. -/
theorem denotation_call_eq_some (h : Structured.denotation (.dict [("call", .str name),
      ("args", .dict args), ("op", .str op), ("value", v)]) = some node) :
    ∃ settings comparators, List.Forall₂ (fun p keyword =>
        (Structured.valueTree maxStructuredDepth p.2).map (fun value => (some p.1, value)) =
          some keyword) args settings ∧
      node = .compare (.call (.name name) [] settings) comparators := by
  rw [denotation_call] at h
  obtain ⟨operand, hoperand, h⟩ := Option.bind_eq_some_iff.mp h
  obtain ⟨settings, hsettings, hoperand⟩ := Option.bind_eq_some_iff.mp hoperand
  cases hoperand
  obtain ⟨cmpOp, hop, h⟩ := Option.bind_eq_some_iff.mp h
  obtain ⟨right, hright, h⟩ := Option.bind_eq_some_iff.mp h
  cases h
  exact ⟨settings, _, mapM_eq_some_iff.mp hsettings, rfl⟩

/-- The tree of a call has a setting for each argument. -/
theorem length_eq_of_denotation_call {args args' : List (String × Value)}
    (h : Structured.denotation (.dict [("call", .str name), ("args", .dict args), ("op", .str op),
      ("value", v)]) = some node)
    (h' : Structured.denotation (.dict [("call", .str name), ("args", .dict args'), ("op", .str op),
      ("value", v)]) = some node')
    (heq : node.withConstants = node'.withConstants) : args.length = args'.length := by
  obtain ⟨settings, comparators, hsettings, rfl⟩ := denotation_call_eq_some h
  obtain ⟨settings', comparators', hsettings', rfl⟩ := denotation_call_eq_some h'
  injection heq with hcall _
  injection hcall with _ _ hkeywords
  have hlength := congrArg List.length hkeywords
  rw [Node.length_withConstantsKeywords, Node.length_withConstantsKeywords] at hlength
  rw [hsettings.length_eq, hlength, hsettings'.length_eq]

end ComplyLayer
