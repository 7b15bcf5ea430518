import ComplyLayer.Verify.VelocityThreshold

/-!
# The step budget

An evaluation takes at most a step for each node, whatever the budget: every node is evaluated at
most once, and counts for at least one. So a budget of as many steps as there are nodes is not
noticed, and the parser accepts no tree of more nodes than `maxSteps`.
-/

namespace ComplyLayer

open Theory Interpreter Counted

/-- An exception that is not of the budget, unless a function of the context raised it. -/
def NotOfBudget (c : EvaluationContext) (e : Raised) : Prop :=
  ∀ limit, e = .evaluation (.stepBudgetExceeded limit) →
    ∃ name function args kwargs, c.functions name = some function ∧
      function args kwargs = .error e

section
variable {c : EvaluationContext} {limit limit' : Nat}

/-- A check that fails has taken no step. -/
theorem within_fail {e : RuleEvaluationError} (h : ∀ k, e ≠ .stepBudgetExceeded k) :
    Within (NotOfBudget c) limit 0 (fail e : Eval α) (fail e) :=
  within_raise fun k heq => absurd (Raised.evaluation.inj heq) (h k)

theorem within_escaped (e : PyException) :
    Within (NotOfBudget c) limit 0 (raise (.escaped e) : Eval α) (raise (.escaped e)) :=
  within_raise fun k heq => by cases heq

theorem within_guardMagnitude (n : Int) :
    Within (NotOfBudget c) limit 0 (guardMagnitude n) (guardMagnitude n) := by
  unfold guardMagnitude
  split
  · exact within_fail fun k h => by cases h
  · exact within_pure _

theorem within_arithmetic (op : Operator) (m n : Int) :
    Within (NotOfBudget c) limit 0 (arithmetic op m n) (arithmetic op m n) := by
  cases op with
  | add | sub => exact within_pure _
  | mult =>
    simp only [arithmetic, guardedMultiply]
    split
    · exact within_fail fun k h => by cases h
    · exact within_pure _
  | _ =>
    simp only [arithmetic]
    split
    · exact within_fail fun k h => by cases h
    · exact within_pure _

theorem within_binop (op : Operator) (l r : Value) :
    Within (NotOfBudget c) limit 0 (binop op l r) (binop op l r) := by
  unfold binop
  split
  · exact (within_arithmetic op _ _).bind fun n _ _ _ => within_guardMagnitude n
  · exact within_fail fun k h => by cases h
  · exact within_fail fun k h => by cases h

theorem within_unaryop (op : UnaryOperator) (v : Value) :
    Within (NotOfBudget c) limit 0 (unaryop op v) (unaryop op v) := by
  unfold unaryop
  split
  · exact within_pure _
  · split
    · exact within_pure _
    · exact within_fail fun k h => by cases h

theorem within_membership (l r : Value) (polarity : Bool → Bool) :
    Within (NotOfBudget c) limit 0 (compareOne.membership l r polarity)
      (compareOne.membership l r polarity) := by
  unfold compareOne.membership
  split
  · split
    · exact within_pure _
    · exact within_escaped _
  · exact within_fail fun k h => by cases h

theorem within_ordered (l r : Value) (holds : Value → Value → Bool) :
    Within (NotOfBudget c) limit 0 (compareOne.ordered l r holds)
      (compareOne.ordered l r holds) := by
  unfold compareOne.ordered
  split
  · exact within_pure _
  · exact within_fail fun k h => by cases h

theorem within_compareOne (op : CmpOp) (l r : Value) :
    Within (NotOfBudget c) limit 0 (compareOne op l r) (compareOne op l r) := by
  cases op with
  | «in» | notIn => exact within_membership _ _ _
  | eq | notEq => exact within_pure _
  | lt => exact within_ordered l r fun v w => v.lt w
  | ltE => exact within_ordered l r fun v w => v.le w
  | gt => exact within_ordered l r fun v w => w.lt v
  -- Everything that is not another operator is taken for `GtE`.
  | gtE | is | isNot => exact within_ordered l r fun v w => w.le v

theorem within_callee (func : Node) :
    Within (NotOfBudget c) limit 0 (callee c func) (callee c func) := by
  unfold callee
  split
  · split
    · exact within_pure _
    · exact within_fail fun k h => by cases h
  · exact within_escaped _

/-- What is called is a function of the context. -/
theorem function_of_callee {func : Node} {function : Function}
    (h : (callee c func).run n = (.ok function, m)) : ∃ name, c.functions name = some function := by
  unfold callee at h
  split at h
  · rename_i name
    split at h
    · rename_i found hfound
      cases h
      exact ⟨name, hfound⟩
    · cases h
  · cases h

mutual
/-- Below a node as many steps as it has nodes, one for itself among them. -/
theorem within_eval (hle : limit ≤ limit') : (node : Node) →
    Within (NotOfBudget c) limit node.walk (eval c limit node) (eval c limit' node)
  | .constant value => by
    rw [eval, eval]
    exact (within_tick hle _ _).bind fun _ _ _ _ => within_pure _
  | .name id => by
    rw [eval, eval]
    refine ((within_tick hle _ _).bind (j := 1) fun _ _ _ _ => ?_)
    cases c.facts.get? id with
    | some value => exact (within_pure _).mono (by omega)
    | none => exact (within_fail fun k h => by cases h).mono (by omega)
  | .boolOp .and values => by
    rw [eval, eval, Node.walk]
    refine ((within_tick hle _ _).bind fun _ _ _ _ => within_evalAnd hle values).mono ?_
    omega
  | .boolOp .or values => by
    rw [eval, eval, Node.walk]
    refine ((within_tick hle _ _).bind fun _ _ _ _ => within_evalOr hle values).mono ?_
    omega
  | .unaryOp op operand => by
    rw [eval, eval, Node.walk]
    refine ((within_tick hle _ _).bind fun _ _ _ _ =>
      (within_eval hle operand).bind fun v _ _ _ => within_unaryop op v).mono ?_
    omega
  | .binOp left op right => by
    rw [eval, eval, Node.walk]
    refine ((within_tick hle _ _).bind fun _ _ _ _ => (within_eval hle left).bind fun l _ _ _ =>
      (within_eval hle right).bind fun r _ _ _ => within_binop op l r).mono ?_
    omega
  | .compare left comparators => by
    rw [eval, eval, Node.walk]
    refine ((within_tick hle _ _).bind fun _ _ _ _ => (within_eval hle left).bind fun l _ _ _ =>
      within_evalCompare hle l comparators).mono ?_
    omega
  | .call func args keywords => by
    rw [eval, eval, Node.walk]
    refine ((within_tick hle _ _).bind fun _ _ _ _ => (within_callee func).bind fun function _ _ hcallee =>
      (within_evalAll hle args).bind fun values _ _ _ =>
        (within_evalKeywords hle keywords).bind fun kwargs _ _ _ => within_lift ?_).mono ?_
    · intro e he k _
      obtain ⟨name, hname⟩ := function_of_callee hcallee
      exact ⟨name, function, values, _, hname, he⟩
    · omega
  | .list elts => by
    rw [eval, eval, Node.walk]
    refine ((within_tick hle _ _).bind fun _ _ _ _ => (within_evalAll hle elts).bind
      fun _ _ _ _ => within_pure _).mono ?_
    omega
  | .tuple elts => by
    rw [eval, eval, Node.walk]
    refine ((within_tick hle _ _).bind fun _ _ _ _ => (within_evalAll hle elts).bind
      fun _ _ _ _ => within_pure _).mono ?_
    omega
  | .attributeOf _ _ | .subscript _ _ | .other _ _ _ => by
    rw [eval, eval, Node.walk]
    refine ((within_tick hle _ _).bind fun _ _ _ _ => within_fail fun k h => by cases h).mono ?_
    omega

theorem within_evalAll (hle : limit ≤ limit') : (nodes : List Node) →
    Within (NotOfBudget c) limit (Node.walkAll nodes) (evalAll c limit nodes)
      (evalAll c limit' nodes)
  | [] => by
    rw [evalAll, evalAll]
    exact within_pure _
  | node :: rest => by
    rw [evalAll, evalAll, Node.walkAll]
    exact (within_eval hle node).bind fun _ _ _ _ => (within_evalAll hle rest).bind
      fun _ _ _ _ => within_pure _

theorem within_evalKeywords (hle : limit ≤ limit') : (keywords : List (Option String × Node)) →
    Within (NotOfBudget c) limit (Node.walkKeywords keywords) (evalKeywords c limit keywords)
      (evalKeywords c limit' keywords)
  | [] => by
    rw [evalKeywords, evalKeywords]
    exact within_pure _
  | (none, _) :: rest => by
    rw [evalKeywords, evalKeywords, Node.walkKeywords]
    exact (within_evalKeywords hle rest).mono (by omega)
  | (some arg, node) :: rest => by
    rw [evalKeywords, evalKeywords, Node.walkKeywords]
    refine ((within_eval hle node).bind fun _ _ _ _ => (within_evalKeywords hle rest).bind
      fun _ _ _ _ => within_pure _).mono ?_
    omega

theorem within_evalAnd (hle : limit ≤ limit') : (nodes : List Node) →
    Within (NotOfBudget c) limit (Node.walkAll nodes) (evalAnd c limit nodes)
      (evalAnd c limit' nodes)
  | [] => by
    rw [evalAnd, evalAnd]
    exact within_pure _
  | node :: rest => by
    rw [evalAnd, evalAnd, Node.walkAll]
    refine (within_eval hle node).bind fun v _ _ _ => ?_
    split
    · exact within_evalAnd hle rest
    · exact (within_pure _).mono (Nat.zero_le _)

theorem within_evalOr (hle : limit ≤ limit') : (nodes : List Node) →
    Within (NotOfBudget c) limit (Node.walkAll nodes) (evalOr c limit nodes)
      (evalOr c limit' nodes)
  | [] => by
    rw [evalOr, evalOr]
    exact within_pure _
  | node :: rest => by
    rw [evalOr, evalOr, Node.walkAll]
    refine (within_eval hle node).bind fun v _ _ _ => ?_
    split
    · exact (within_pure _).mono (Nat.zero_le _)
    · exact within_evalOr hle rest

theorem within_evalCompare (hle : limit ≤ limit') (left : Value) :
    (comparators : List (CmpOp × Node)) →
    Within (NotOfBudget c) limit (Node.walkComparators comparators)
      (evalCompare c limit left comparators) (evalCompare c limit' left comparators)
  | [] => by
    rw [evalCompare, evalCompare]
    exact within_pure _
  | (op, node) :: rest => by
    rw [evalCompare, evalCompare, Node.walkComparators]
    refine ((within_eval hle node).bind fun right _ _ _ =>
      (within_compareOne op left right).bind (j := Node.walkComparators rest)
        fun result _ _ _ => ?_).mono ?_
    · split
      · exact within_evalCompare hle right rest
      · exact (within_pure _).mono (Nat.zero_le _)
    · omega
end

theorem within_run (hle : limit ≤ limit') (body : Node) :
    Within (NotOfBudget c) limit body.walk (run c limit body) (run c limit' body) :=
  (within_eval hle body).bind fun _ _ _ _ => within_pure _

/-! ## The functions of a decision -/

/-- The outcome is not an exception of the budget. -/
def Unbudgeted (r : Except Raised α) : Prop := ∀ k, r ≠ .error (.evaluation (.stepBudgetExceeded k))

theorem unbudgeted_ok (a : α) : Unbudgeted (.ok a) := fun k h => by cases h

theorem unbudgeted_typeError : Unbudgeted (typeError : Except Raised α) := fun k h => by cases h

theorem unbudgeted_evaluationError {e : RuleEvaluationError}
    (h : ∀ k, e ≠ .stepBudgetExceeded k) : Unbudgeted (evaluationError e : Except Raised α) := by
  intro k heq
  exact h k (Raised.evaluation.inj (Except.error.inj heq))

theorem unbudgeted_bind {r : Except Raised α} {f : α → Except Raised β} (hr : Unbudgeted r)
    (hf : ∀ a, Unbudgeted (f a)) : Unbudgeted (r >>= f) := by
  cases r with
  | ok a => exact hf a
  | error e => exact fun k h => hr k (congrArg Except.error (Except.error.inj h))

theorem unbudgeted_wholeNumber (v : Value) (label : String) :
    Unbudgeted (wholeNumber v label) := by
  unfold wholeNumber
  split
  · exact unbudgeted_ok _
  · exact unbudgeted_evaluationError fun k h => by cases h

theorem unbudgeted_windowSeconds (w : Value) : Unbudgeted (windowSeconds w) := by
  unfold windowSeconds
  split
  · split
    · exact unbudgeted_ok _
    · exact unbudgeted_evaluationError fun k h => by cases h
  · exact unbudgeted_evaluationError fun k h => by cases h

theorem unbudgeted_velocityFunction {method : Nat → Filters → Except Raised Int}
    (h : ∀ seconds filters, Unbudgeted (method seconds filters)) (args : List Value)
    (kwargs : Dict String Value) : Unbudgeted (velocityFunction method args kwargs) := by
  unfold velocityFunction
  split
  · exact unbudgeted_bind (unbudgeted_windowSeconds _) fun seconds =>
      unbudgeted_bind (h seconds _) fun n => unbudgeted_ok _
  · exact unbudgeted_typeError

theorem unbudgeted_provider (gathered : Gathered) (seconds : Nat) (filters : Filters) :
    Unbudgeted (gathered.provider.count seconds filters) ∧
      Unbudgeted (gathered.provider.total seconds filters) := by
  cases gathered with
  | unavailable cause =>
    have hraise : Unbudgeted (Gathered.raiseUnavailable cause seconds filters) :=
      unbudgeted_evaluationError fun k h => by cases h
    exact ⟨hraise, hraise⟩
  | window window =>
    have hmatching : Unbudgeted (window.matching seconds filters) := by
      intro k h
      cases Window.matchingFrom_error h
    exact ⟨unbudgeted_bind hmatching fun amounts => unbudgeted_ok _,
      unbudgeted_bind hmatching fun amounts => unbudgeted_ok _⟩

theorem unbudgeted_build {py : Python} {gathered : Gathered} {now : Instant} {name : String}
    {function : Function} (h : build py gathered.provider now name = some function)
    (args : List Value) (kwargs : Dict String Value) : Unbudgeted (function args kwargs) := by
  unfold build at h
  split at h
  case h_1 =>
    cases h
    exact unbudgeted_velocityFunction (fun s f => (unbudgeted_provider gathered s f).1) args kwargs
  case h_2 =>
    cases h
    exact unbudgeted_velocityFunction (fun s f => (unbudgeted_provider gathered s f).2) args kwargs
  case h_3 =>
    cases h
    unfold daysSince
    split
    · split
      · exact unbudgeted_ok _
      · exact unbudgeted_evaluationError fun k h => by cases h
    · exact unbudgeted_ok _
    · exact unbudgeted_evaluationError fun k h => by cases h
    · exact unbudgeted_typeError
  case h_4 =>
    cases h
    unfold inList
    split
    · split
      · split
        · exact unbudgeted_ok _
        · exact unbudgeted_typeError
      · exact unbudgeted_evaluationError fun k h => by cases h
    · exact unbudgeted_typeError
  case h_5 =>
    cases h
    unfold hourOfDay
    split
    · exact unbudgeted_ok _
    · exact unbudgeted_typeError
  case h_6 =>
    cases h
    unfold absValue
    split
    · exact unbudgeted_bind (unbudgeted_wholeNumber _ _) fun n => unbudgeted_ok _
    · exact unbudgeted_typeError
  case h_7 | h_8 =>
    cases h
    unfold chooseOf
    split
    · exact unbudgeted_bind (unbudgeted_wholeNumber _ _) fun m =>
        unbudgeted_bind (unbudgeted_wholeNumber _ _) fun n => unbudgeted_ok _
    · exact unbudgeted_typeError
  case h_9 =>
    cases h
    unfold percentOf
    split
    · exact unbudgeted_bind (unbudgeted_wholeNumber _ _) fun m =>
        unbudgeted_bind (unbudgeted_wholeNumber _ _) fun n => unbudgeted_ok _
    · exact unbudgeted_typeError
  case h_10 => cases h

/-! ## Runs -/

/-- The runs under two budgets of as many steps as there are nodes are the same. -/
theorem run_budget_eq (body : Node) (h : body.walk ≤ limit) (h' : body.walk ≤ limit') :
    (run c limit body).run 0 = (run c limit' body).run 0 := by
  rcases Nat.le_total limit limit' with hle | hle
  · exact ((within_run hle body).same 0 (by omega)).symm
  · exact (within_run hle body).same 0 (by omega)

/-- **The step budget never decides.** A run of a validated tree takes at most as many steps as the
tree has nodes, whatever the budget, and so fewer than `maxSteps`. At that budget an exception of
the budget is one that a function of the context raised, which those of a decision do not. Under
any two budgets of as many steps as there are nodes, the result and the step count are the same. -/
theorem budget_never_decides (py : Python) {source : String} {body : Node}
    (h : validateSource py source = .ok body) (c : EvaluationContext) :
    (∀ limit, ((run c limit body).run 0).2 ≤ 1 + body.walk ∧
      ((run c limit body).run 0).2 ≤ maxNodes ∧ ((run c limit body).run 0).2 < maxSteps) ∧
    (∀ k, ((run c maxSteps body).run 0).1 = .error (.evaluation (.stepBudgetExceeded k)) →
      ∃ name function args kwargs, c.functions name = some function ∧
        function args kwargs = .error (.evaluation (.stepBudgetExceeded k))) ∧
    (∀ (gathered : Gathered) (now : Instant), c.functions = build py gathered.provider now →
      ∀ k, ((run c maxSteps body).run 0).1 ≠ .error (.evaluation (.stepBudgetExceeded k))) ∧
    ∀ limit limit', 1 + body.walk ≤ limit → 1 + body.walk ≤ limit' →
      (run c limit body).run 0 = (run c limit' body).run 0 := by
  have hnodes : 1 + body.walk ≤ maxNodes := (validateSource_eq_ok h).2
  have hlimits : maxNodes < maxSteps := by decide
  have hraised : ∀ k, ((run c maxSteps body).run 0).1 =
      .error (.evaluation (.stepBudgetExceeded k)) → ∃ name function args kwargs,
        c.functions name = some function ∧
          function args kwargs = .error (.evaluation (.stepBudgetExceeded k)) := by
    intro k hk
    exact (within_run (le_refl maxSteps) body).raises 0 (by omega) _ _ (Prod.ext hk rfl) k rfl
  refine ⟨fun limit => ?_, hraised, fun gathered now hc k hk => ?_, fun limit limit' hl hl' => ?_⟩
  · have hsteps : ((run c limit body).run 0).2 ≤ 0 + body.walk :=
      (within_run (le_refl limit) body).steps 0
    omega
  · obtain ⟨name, function, args, kwargs, hname, herror⟩ := hraised k hk
    rw [hc] at hname
    exact unbudgeted_build hname args kwargs k herror
  · exact run_budget_eq body (by omega) (by omega)

end

theorem budget_never_decides_threshold :
    ((run ⟨∅, build clockPython (Gathered.unavailable "timeout").provider ⟨0, 0⟩⟩ 2
      (overThreshold "1h" 1)).run 0).2 ≤ 1 + (overThreshold "1h" 1).walk ∧
    (∀ k, ((run ⟨∅, build clockPython (Gathered.unavailable "timeout").provider ⟨0, 0⟩⟩ maxSteps
      (overThreshold "1h" 1)).run 0).1 ≠ .error (.evaluation (.stepBudgetExceeded k))) := by
  have hsource : validateSource clockPython "velocity_count(window='1h') > 1" =
      .ok (overThreshold "1h" 1) := rfl
  obtain ⟨hsteps, -, hdecision, -⟩ := budget_never_decides clockPython hsource
    ⟨∅, build clockPython (Gathered.unavailable "timeout").provider ⟨0, 0⟩⟩
  exact ⟨(hsteps 2).1, hdecision _ _ rfl⟩

end ComplyLayer
