import ComplyLayer.Dsl.Interpreter

/-!
# Two evaluations of one tree

An `EvalRelation` relates the values, and the computations, of two evaluations; it has a closure
clause for each combinator the interpreter is built from. Where it relates the facts and the
functions that a tree reads in two contexts, it relates the evaluations of the tree
(`eval_related`): that one induction over trees serves every comparison of two runs.
-/

namespace ComplyLayer

open Theory

/-! ## What is evaluated -/

/-- The nodes right below a node that are evaluated: neither the callee of a call nor the value
of a `**mapping`. -/
def Node.operands : Node → List Node
  | .boolOp _ values => values
  | .unaryOp _ operand => [operand]
  | .binOp left _ right => [left, right]
  | .compare left comparators => left :: comparators.map Prod.snd
  | .call _ args keywords =>
    args ++ keywords.filterMap fun keyword => keyword.1.map fun _ => keyword.2
  | .list elts | .tuple elts => elts
  | _ => []

theorem Node.mem_children_of_mem_operands (h : c ∈ Node.operands n) : c ∈ n.children := by
  cases n with
  | call func args keywords =>
    refine List.mem_cons_of_mem _ (List.mem_append.mpr ?_)
    rcases List.mem_append.mp h with hargs | hkeywords
    · exact .inl hargs
    · obtain ⟨⟨arg, node⟩, hmem, hsome⟩ := List.mem_filterMap.mp hkeywords
      cases arg with
      | none => cases hsome
      | some arg =>
        cases hsome
        exact .inr (List.mem_map_of_mem hmem)
  | constant | name | attributeOf | subscript | other => cases h
  | _ => exact h

/-- `m` is `n`, or evaluated somewhere below it. -/
inductive Node.In : Node → Node → Prop where
  | refl : In n n
  | operand : c ∈ n.operands → In m c → In m n

theorem Node.In.under (h : Node.In m n) : m.Under n := by
  induction h with
  | refl => exact .refl
  | operand hc _ ih => exact .child (mem_children_of_mem_operands hc) ih

namespace Interpreter

/-- `_eval_name`. -/
def readFact (context : EvaluationContext) (id : String) : Eval Value :=
  (context.facts.get? id).elim (fail (.unknownFact id)) pure

theorem eval_name (context : EvaluationContext) (limit : Nat) (id : String) :
    eval context limit (.name id) = tick limit >>= fun _ => readFact context id := by
  rw [eval, readFact]
  cases context.facts.get? id <;> rfl

/-! ## The relation -/

structure EvalRelation where
  V : Value → Value → Prop
  Rel : ∀ {α β : Type}, (α → β → Prop) → Eval α → Eval β → Prop
  pure : ∀ {α β : Type} {R : α → β → Prop} {a : α} {b : β}, R a b → Rel R (pure a) (pure b)
  bind : ∀ {α β γ δ : Type} {R : α → β → Prop} {S : γ → δ → Prop} {x : Eval α} {y : Eval β}
    {f : α → Eval γ} {g : β → Eval δ}, Rel R x y → (∀ a b, R a b → Rel S (f a) (g b)) →
    Rel S (x >>= f) (y >>= g)
  tick : ∀ limit, Rel Eq (tick limit) (tick limit)
  fail : ∀ {α β : Type} {R : α → β → Prop} (e : RuleEvaluationError), Rel R (fail e) (fail e)
  truthy : V v w → v.truthy = w.truthy
  bool : ∀ b, V (.bool b) (.bool b)
  tuple : List.Forall₂ V vs ws → V (.tuple vs) (.tuple ws)
  unaryop : ∀ op, V v w → Rel V (unaryop op v) (unaryop op w)
  binop : ∀ op, V v w → V v' w' → Rel V (binop op v v') (binop op w w')
  compareOne : ∀ op, V v w → V v' w' → Rel Eq (compareOne op v v') (compareOne op w w')

namespace EvalRelation

variable (r : EvalRelation)

/-- Keyword arguments of one name, with related values. -/
def Keyword (k l : String × Value) : Prop := k.1 = l.1 ∧ r.V k.2 l.2

/-- Functions that take related arguments to related results. -/
def Call (f g : Function) : Prop := ∀ vs ws kvs kws, List.Forall₂ r.V vs ws →
  List.Forall₂ r.Keyword kvs kws →
  r.Rel r.V (Counted.lift (f vs (Dict.ofList kvs))) (Counted.lift (g ws (Dict.ofList kws)))

/-- The two contexts have related values, and functions, for the node. -/
def Coupled (c c' : EvaluationContext) : Node → Prop
  | .constant value => r.V value value
  | .name id => r.Rel r.V (readFact c id) (readFact c' id)
  | .call func _ _ => r.Rel r.Call (callee c func) (callee c' func)
  | _ => True

end EvalRelation

section
variable (r : EvalRelation) {c c' : EvaluationContext} (limit : Nat)

mutual
/-- Contexts that are related at every node that is evaluated give related evaluations. -/
theorem eval_related : (node : Node) → (∀ m : Node, m.In node → r.Coupled c c' m) →
    r.Rel r.V (eval c limit node) (eval c' limit node)
  | .constant value, h => by
    rw [eval, eval]
    exact r.bind (r.tick limit) fun _ _ _ => r.pure (h _ .refl)
  | .name id, h => by
    rw [eval_name, eval_name]
    exact r.bind (r.tick limit) fun _ _ _ => h _ .refl
  | .boolOp .and values, h => by
    rw [eval, eval]
    exact r.bind (r.tick limit) fun _ _ _ =>
      evalAnd_related values fun n hn m hm => h m (.operand hn hm)
  | .boolOp .or values, h => by
    rw [eval, eval]
    exact r.bind (r.tick limit) fun _ _ _ =>
      evalOr_related values fun n hn m hm => h m (.operand hn hm)
  | .unaryOp op operand, h => by
    rw [eval, eval]
    exact r.bind (r.tick limit) fun _ _ _ =>
      r.bind (eval_related operand fun m hm => h m (.operand (List.mem_singleton_self _) hm))
        fun _ _ hv => r.unaryop op hv
  | .binOp left op right, h => by
    rw [eval, eval]
    exact r.bind (r.tick limit) fun _ _ _ =>
      r.bind (eval_related left fun m hm => h m (.operand List.mem_cons_self hm))
        fun _ _ hl =>
          r.bind (eval_related right fun m hm =>
              h m (.operand (List.mem_cons_of_mem _ (List.mem_singleton_self _)) hm))
            fun _ _ hr => r.binop op hl hr
  | .compare left comparators, h => by
    rw [eval, eval]
    exact r.bind (r.tick limit) fun _ _ _ =>
      r.bind (eval_related left fun m hm => h m (.operand List.mem_cons_self hm))
        fun _ _ hl => evalCompare_related comparators hl fun k hk m hm =>
          h m (.operand (List.mem_cons_of_mem _ (List.mem_map_of_mem hk)) hm)
  | .call func args keywords, h => by
    rw [eval, eval]
    exact r.bind (r.tick limit) fun _ _ _ => r.bind (h _ .refl) fun _ _ hcall =>
      r.bind (evalAll_related args fun n hn m hm =>
          h m (.operand (List.mem_append_left _ hn) hm)) fun _ _ hargs =>
        r.bind (evalKeywords_related keywords fun arg k hk m hm =>
            h m (.operand (List.mem_append_right _
              (List.mem_filterMap.mpr ⟨(some arg, k), hk, rfl⟩)) hm)) fun _ _ hkeywords =>
          hcall _ _ _ _ hargs hkeywords
  | .list elts, h => by
    rw [eval, eval]
    exact r.bind (r.tick limit) fun _ _ _ =>
      r.bind (evalAll_related elts fun n hn m hm => h m (.operand hn hm))
        fun _ _ hvs => r.pure (r.tuple hvs)
  | .tuple elts, h => by
    rw [eval, eval]
    exact r.bind (r.tick limit) fun _ _ _ =>
      r.bind (evalAll_related elts fun n hn m hm => h m (.operand hn hm))
        fun _ _ hvs => r.pure (r.tuple hvs)
  | .attributeOf _ _, _ => by
    rw [eval, eval]
    exact r.bind (r.tick limit) fun _ _ _ => r.fail _
  | .subscript _ _, _ => by
    rw [eval, eval]
    exact r.bind (r.tick limit) fun _ _ _ => r.fail _
  | .other _ _ _, _ => by
    rw [eval, eval]
    exact r.bind (r.tick limit) fun _ _ _ => r.fail _

theorem evalAll_related : (nodes : List Node) →
    (∀ n ∈ nodes, ∀ m : Node, m.In n → r.Coupled c c' m) →
    r.Rel (List.Forall₂ r.V) (evalAll c limit nodes) (evalAll c' limit nodes)
  | [], _ => by
    rw [evalAll, evalAll]
    exact r.pure .nil
  | node :: rest, h => by
    rw [evalAll, evalAll]
    exact r.bind (eval_related node (h node List.mem_cons_self)) fun _ _ hv =>
      r.bind (evalAll_related rest fun n hn => h n (List.mem_cons_of_mem _ hn)) fun _ _ hvs =>
        r.pure (.cons hv hvs)

theorem evalKeywords_related : (keywords : List (Option String × Node)) →
    (∀ arg n, (some arg, n) ∈ keywords → ∀ m : Node, m.In n → r.Coupled c c' m) →
    r.Rel (List.Forall₂ r.Keyword) (evalKeywords c limit keywords) (evalKeywords c' limit keywords)
  | [], _ => by
    rw [evalKeywords, evalKeywords]
    exact r.pure .nil
  | (none, _) :: rest, h => by
    rw [evalKeywords, evalKeywords]
    exact evalKeywords_related rest fun arg n hn => h arg n (List.mem_cons_of_mem _ hn)
  | (some arg, node) :: rest, h => by
    rw [evalKeywords, evalKeywords]
    exact r.bind (eval_related node (h arg node List.mem_cons_self)) fun _ _ hv =>
      r.bind (evalKeywords_related rest fun arg n hn => h arg n (List.mem_cons_of_mem _ hn))
        fun _ _ hvs => r.pure (.cons ⟨rfl, hv⟩ hvs)

theorem evalAnd_related : (nodes : List Node) →
    (∀ n ∈ nodes, ∀ m : Node, m.In n → r.Coupled c c' m) →
    r.Rel r.V (evalAnd c limit nodes) (evalAnd c' limit nodes)
  | [], _ => by
    rw [evalAnd, evalAnd]
    exact r.pure (r.bool true)
  | node :: rest, h => by
    rw [evalAnd, evalAnd]
    refine r.bind (eval_related node (h node List.mem_cons_self)) fun v w hv => ?_
    rw [r.truthy hv]
    cases w.truthy with
    | true => exact evalAnd_related rest fun n hn => h n (List.mem_cons_of_mem _ hn)
    | false => exact r.pure (r.bool false)

theorem evalOr_related : (nodes : List Node) →
    (∀ n ∈ nodes, ∀ m : Node, m.In n → r.Coupled c c' m) →
    r.Rel r.V (evalOr c limit nodes) (evalOr c' limit nodes)
  | [], _ => by
    rw [evalOr, evalOr]
    exact r.pure (r.bool false)
  | node :: rest, h => by
    rw [evalOr, evalOr]
    refine r.bind (eval_related node (h node List.mem_cons_self)) fun v w hv => ?_
    rw [r.truthy hv]
    cases w.truthy with
    | true => exact r.pure (r.bool true)
    | false => exact evalOr_related rest fun n hn => h n (List.mem_cons_of_mem _ hn)

theorem evalCompare_related : (comparators : List (CmpOp × Node)) → r.V v w →
    (∀ k ∈ comparators, ∀ m : Node, m.In k.2 → r.Coupled c c' m) →
    r.Rel r.V (evalCompare c limit v comparators) (evalCompare c' limit w comparators)
  | [], _, _ => by
    rw [evalCompare, evalCompare]
    exact r.pure (r.bool true)
  | (op, node) :: rest, hv, h => by
    rw [evalCompare, evalCompare]
    refine r.bind (eval_related node (h _ List.mem_cons_self)) fun _ _ hw =>
      r.bind (r.compareOne op hv hw) fun result _ hresult => ?_
    subst hresult
    cases result with
    | true => exact evalCompare_related rest hw fun k hk => h k (List.mem_cons_of_mem _ hk)
    | false => exact r.pure (r.bool false)
end

/-- The same for whether a rule matches. -/
theorem run_related (body : Node) (h : ∀ m : Node, m.In body → r.Coupled c c' m) :
    r.Rel Eq (run c limit body) (run c' limit body) :=
  r.bind (eval_related r limit body h) fun _ _ hv => r.pure (r.truthy hv)

end

/-! ## Side by side -/

/-- From every count the two computations end alike, in related values or in one exception, unless
the first raises an exception in `P`. -/
def SideBySide (P : Raised → Prop) (R : α → β → Prop) (x : Eval α) (y : Eval β) : Prop :=
  ∀ n, (∃ e k, P e ∧ x.run n = (.error e, k)) ∨
    (∃ a b k, x.run n = (.ok a, k) ∧ y.run n = (.ok b, k) ∧ R a b) ∨
    ∃ e k, x.run n = (.error e, k) ∧ y.run n = (.error e, k)

section
variable {P : Raised → Prop}

theorem sideBySide_refl (x : Eval α) : SideBySide P Eq x x := by
  intro n
  right
  cases hx : x.run n with
  | mk r k =>
    cases r with
    | ok a => exact .inl ⟨a, a, k, rfl, rfl, rfl⟩
    | error e => exact .inr ⟨e, k, rfl, rfl⟩

theorem SideBySide.bind {R : α → β → Prop} {S : γ → δ → Prop} {x : Eval α} {y : Eval β}
    {f : α → Eval γ} {g : β → Eval δ} (h : SideBySide P R x y)
    (hf : ∀ a b, R a b → SideBySide P S (f a) (g b)) :
    SideBySide P S (x >>= f) (y >>= g) := by
  intro n
  obtain ⟨e, k, he, hx⟩ | ⟨a, b, k, hx, hy, hab⟩ | ⟨e, k, hx, hy⟩ := h n
  · exact .inl ⟨e, k, he, Counted.run_bind_of_error hx⟩
  · rw [Counted.run_bind_of_ok hx, Counted.run_bind_of_ok hy]
    exact hf a b hab k
  · exact .inr (.inr ⟨e, k, Counted.run_bind_of_error hx, Counted.run_bind_of_error hy⟩)

theorem SideBySide.run_eq {x y : Eval α} (h : SideBySide P Eq x y) (n : Nat) :
    (∃ e k, P e ∧ x.run n = (.error e, k)) ∨ y.run n = x.run n := by
  obtain hx | ⟨a, b, k, hx, hy, rfl⟩ | ⟨e, k, hx, hy⟩ := h n
  · exact .inl hx
  · exact .inr (hy.trans hx.symm)
  · exact .inr (hy.trans hx.symm)

/-- Equal values, side by side. -/
def sideBySide (P : Raised → Prop) : EvalRelation where
  V := Eq
  Rel := SideBySide P
  pure h n := .inr (.inl ⟨_, _, n, rfl, rfl, h⟩)
  bind h hf := h.bind hf
  tick limit := sideBySide_refl _
  fail e n := .inr (.inr ⟨.evaluation e, n, rfl, rfl⟩)
  truthy h := congrArg Value.truthy h
  bool _ := rfl
  tuple h := congrArg Value.tuple (List.forall₂_eq_eq_eq ▸ h)
  unaryop op h := by
    subst h
    exact sideBySide_refl _
  binop op h h' := by
    subst h h'
    exact sideBySide_refl _
  compareOne op h h' := by
    subst h h'
    exact sideBySide_refl _

theorem sideBySide_call (f : Function) : (sideBySide P).Call f f := by
  intro vs ws kvs kws hargs hkeywords
  have hvs : vs = ws := List.forall₂_eq_eq_eq ▸ hargs
  have hkvs : kvs = kws := by
    have heq : List.Forall₂ Eq kvs kws := hkeywords.imp fun k l h => Prod.ext h.1 h.2
    exact List.forall₂_eq_eq_eq ▸ heq
  subst hvs hkvs
  exact sideBySide_refl _

/-- Of two contexts with the same functions, only the facts that are read can tell them apart. -/
theorem coupled_of_facts {c c' : EvaluationContext} (hfunctions : c.functions = c'.functions)
    (hfacts : ∀ id, n = .name id → c.facts.get? id = c'.facts.get? id) :
    (sideBySide P).Coupled c c' n := by
  cases n with
  | constant value => exact rfl
  | name id =>
    change SideBySide P Eq (readFact c id) (readFact c' id)
    rw [readFact, readFact, hfacts id rfl]
    exact sideBySide_refl _
  | call func args keywords =>
    have hcallee : callee c func = callee c' func := by
      cases func with
      | name id => rw [callee, callee, hfunctions]
      | _ => rfl
    change SideBySide P (sideBySide P).Call (callee c func) (callee c' func)
    rw [hcallee, ← bind_pure (callee c' func)]
    exact (sideBySide_refl _).bind fun f _ hf k =>
      .inr (.inl ⟨f, f, k, rfl, by rw [hf]; rfl, sideBySide_call f⟩)
  | _ => trivial

end

end Interpreter

end ComplyLayer
