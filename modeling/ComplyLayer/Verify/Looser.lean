import ComplyLayer.Dsl.Related
import ComplyLayer.Verify.DiffNaming

/-!
# Looser and tighter

The diff calls a threshold that went up looser. That is so for a limit: a constant that is compared
by `>` or `>=`, or under `not` by `<` or `<=` (`Limit`, `looser_tells_truth`). Of a rule that is one
comparison it is so for no other operator that orders or equates.
-/

namespace ComplyLayer

open Theory Interpreter Diff

/-! ## The value of a tree does not depend on the step count -/

/-- Both computations return the same from every count. -/
def Timeless (x : Eval α) : Prop := ∀ n k, (x.run n).1 = (x.run k).1

theorem Timeless.eq (h : Timeless x) (hx : x.run n = (.ok a, n')) (hy : x.run k = (.ok b, k')) :
    a = b := by
  have hsame := h n k
  rw [hx, hy] at hsame
  exact Except.ok.inj hsame

theorem timeless_pure (a : α) : Timeless (pure a : Eval α) := fun _ _ => rfl

theorem timeless_fail (e : RuleEvaluationError) : Timeless (fail e : Eval α) := fun _ _ => rfl

theorem timeless_lift (r : Except Raised α) : Timeless (Counted.lift r) := fun _ _ => rfl

theorem Timeless.bind {x : Eval α} {f : α → Eval β} (hx : Timeless x) (hf : ∀ a, Timeless (f a)) :
    Timeless (x >>= f) := by
  intro n k
  have hsame := hx n k
  cases hn : x.run n with
  | mk r n' =>
    cases hk : x.run k with
    | mk r' k' =>
      rw [hn, hk] at hsame
      change r = r' at hsame
      subst hsame
      cases r with
      | ok a =>
        rw [Counted.run_bind_of_ok hn, Counted.run_bind_of_ok hk]
        exact hf a n' k'
      | error e => rw [Counted.run_bind_of_error hn, Counted.run_bind_of_error hk]

theorem timeless_unaryop (op : UnaryOperator) (v : Value) : Timeless (unaryop op v) := by
  unfold unaryop
  repeat' split
  all_goals first
    | exact timeless_pure _
    | exact timeless_fail _

theorem timeless_guardMagnitude (n : Int) : Timeless (guardMagnitude n) := by
  unfold guardMagnitude
  split
  · exact timeless_fail _
  · exact timeless_pure _

theorem timeless_guardedMultiply (m n : Int) : Timeless (guardedMultiply m n) := by
  unfold guardedMultiply
  simp only
  split
  · exact timeless_fail _
  · exact timeless_pure _

theorem timeless_arithmetic (op : Operator) (m n : Int) : Timeless (arithmetic op m n) := by
  unfold arithmetic
  repeat' split
  all_goals first
    | exact timeless_pure _
    | exact timeless_fail _
    | exact timeless_guardedMultiply _ _

theorem timeless_binop (op : Operator) (v w : Value) : Timeless (binop op v w) := by
  unfold binop
  split
  · exact (timeless_arithmetic _ _ _).bind fun _ => timeless_guardMagnitude _
  · exact timeless_fail _
  · exact timeless_fail _

theorem timeless_membership (v w : Value) (polarity : Bool → Bool) :
    Timeless (compareOne.membership v w polarity) := by
  unfold compareOne.membership
  repeat' split
  all_goals first
    | exact timeless_pure _
    | exact timeless_fail _
    | exact fun _ _ => rfl

theorem timeless_ordered (v w : Value) (holds : Value → Value → Bool) :
    Timeless (compareOne.ordered v w holds) := by
  unfold compareOne.ordered
  split
  · exact timeless_pure _
  · exact timeless_fail _

theorem timeless_compareOne (op : CmpOp) (v w : Value) : Timeless (compareOne op v w) := by
  cases op with
  | «in» | notIn => exact timeless_membership _ _ _
  | eq | notEq => exact timeless_pure _
  | lt | ltE | gt | gtE | is | isNot => exact timeless_ordered _ _ _

theorem timeless_readFact (c : EvaluationContext) (id : String) : Timeless (readFact c id) := by
  intro n k
  unfold readFact
  cases c.facts.get? id <;> rfl

theorem timeless_callee (c : EvaluationContext) (func : Node) : Timeless (callee c func) := by
  intro n k
  unfold callee
  split
  · split <;> rfl
  · rfl

/-- Where both computations return, they return related values. -/
def steady : EvalRelation where
  V := Eq
  Rel R x y := ∀ n a n' k b k', x.run n = (.ok a, n') → y.run k = (.ok b, k') → R a b
  pure h _ _ _ _ _ _ hx hy := by
    cases hx
    cases hy
    exact h
  bind hxy hfg n c n' k d k' hx hy := by
    obtain ⟨a, m, hxa, hfa⟩ := Counted.run_bind_eq_ok.mp hx
    obtain ⟨b, j, hyb, hgb⟩ := Counted.run_bind_eq_ok.mp hy
    exact hfg a b (hxy _ _ _ _ _ _ hxa hyb) _ _ _ _ _ _ hfa hgb
  tick _ _ _ _ _ _ _ _ _ := rfl
  fail _ _ _ _ _ _ _ hx _ := by cases hx
  truthy := (sideBySide fun _ => False).truthy
  bool := (sideBySide fun _ => False).bool
  tuple := (sideBySide fun _ => False).tuple
  unaryop op h := by
    subst h
    exact fun _ _ _ _ _ _ => (timeless_unaryop op _).eq
  binop op h h' := by
    subst h h'
    exact fun _ _ _ _ _ _ => (timeless_binop op _ _).eq
  compareOne op h h' := by
    subst h h'
    exact fun _ _ _ _ _ _ => (timeless_compareOne op _ _).eq

theorem steady_keyword : steady.Keyword k l ↔ k = l :=
  ⟨fun h => Prod.ext h.1 h.2, fun h => h ▸ ⟨rfl, rfl⟩⟩

theorem steady_coupled (c : EvaluationContext) (n : Node) : steady.Coupled c c n := by
  cases n with
  | constant value => exact rfl
  | name id => exact fun _ _ _ _ _ _ => (timeless_readFact c id).eq
  | call func args keywords =>
    intro _ f _ _ g _ hf hg
    cases (timeless_callee c func).eq hf hg
    intro vs ws kvs kws hargs hkeywords
    have hvs : vs = ws := List.forall₂_eq_eq_eq ▸ hargs
    have hkvs : kvs = kws := by
      have := hkeywords.imp fun k l h => steady_keyword.mp h
      exact List.forall₂_eq_eq_eq ▸ this
    subst hvs hkvs
    exact fun _ _ _ _ _ _ => (timeless_lift _).eq
  | _ => trivial

section
variable {c : EvaluationContext} {limit : Nat}

theorem eval_steady (hm : (eval c limit m).run n = (.ok v, n'))
    (hk : (eval c limit m).run k = (.ok w, k')) : v = w :=
  eval_related steady limit m (fun _ _ => steady_coupled c _) _ _ _ _ _ _ hm hk

/-! ## Narrower rules -/

/-- Where both trees have a value, the second is true only where the first is. -/
def Narrows (c : EvaluationContext) (limit : Nat) (m n : Node) : Prop :=
  ∀ v w i i' j j', (eval c limit m).run i = (.ok v, i') → (eval c limit n).run j = (.ok w, j') →
    w.truthy = true → v.truthy = true

theorem run_tick_bind {f : Unit → Eval α} (h : (tick limit >>= f).run i = (.ok a, j)) :
    (f ()).run (i + 1) = (.ok a, j) := by
  obtain ⟨_, k, htick, hf⟩ := Counted.run_bind_eq_ok.mp h
  by_cases hlt : i < limit
  · rw [tick, Counted.run_tick_of_lt _ hlt] at htick
    cases htick
    exact hf
  · rw [tick, Counted.run_tick_of_le _ (Nat.not_lt.mp hlt)] at htick
    cases htick

/-- Under `not` the order of the two trees turns. -/
theorem Narrows.not (h : Narrows c limit m n) :
    Narrows c limit (.unaryOp .not n) (.unaryOp .not m) := by
  intro v w i i' j j' hv hw htrue
  rw [eval] at hv hw
  obtain ⟨v', k, hn, hv⟩ := Counted.run_bind_eq_ok.mp (run_tick_bind hv)
  obtain ⟨w', k', hm, hw⟩ := Counted.run_bind_eq_ok.mp (run_tick_bind hw)
  cases hv
  cases hw
  have hfalse : w'.truthy = false := Bool.not_eq_true' _ ▸ htrue
  cases hv' : v'.truthy with
  | false => rfl
  | true =>
    rw [h _ _ _ _ _ _ hm hn hv'] at hfalse
    cases hfalse

/-- A run of `and` is true where every operand is. -/
theorem evalAnd_narrows (h : Narrows c limit m n) (before after : List Node)
    (hv : (evalAnd c limit (before ++ m :: after)).run i = (.ok v, i'))
    (hw : (evalAnd c limit (before ++ n :: after)).run j = (.ok w, j'))
    (htrue : w.truthy = true) : v.truthy = true := by
  induction before generalizing i j with
  | nil =>
    rw [List.nil_append, evalAnd] at hv hw
    obtain ⟨a, k, hm, hv⟩ := Counted.run_bind_eq_ok.mp hv
    obtain ⟨b, k', hn, hw⟩ := Counted.run_bind_eq_ok.mp hw
    cases hb : b.truthy with
    | false =>
      rw [hb] at hw
      cases hw
      cases htrue
    | true =>
      rw [h _ _ _ _ _ _ hm hn hb, if_pos rfl] at hv
      rw [hb, if_pos rfl] at hw
      have hsame := evalAnd_related steady limit after
        (fun _ _ _ _ => steady_coupled c _) _ _ _ _ _ _ hv hw
      rw [hsame]
      exact htrue
  | cons x before ih =>
    rw [List.cons_append, evalAnd] at hv hw
    obtain ⟨a, k, hx, hv⟩ := Counted.run_bind_eq_ok.mp hv
    obtain ⟨b, k', hx', hw⟩ := Counted.run_bind_eq_ok.mp hw
    cases eval_steady hx hx'
    split at hw
    · rename_i hx
      rw [if_pos hx] at hv
      exact ih hv hw
    · cases hw
      cases htrue

/-- A run of `or` is false where every operand is. -/
theorem evalOr_narrows (h : Narrows c limit m n) (before after : List Node)
    (hv : (evalOr c limit (before ++ m :: after)).run i = (.ok v, i'))
    (hw : (evalOr c limit (before ++ n :: after)).run j = (.ok w, j'))
    (htrue : w.truthy = true) : v.truthy = true := by
  induction before generalizing i j with
  | nil =>
    rw [List.nil_append, evalOr] at hv hw
    obtain ⟨a, k, hm, hv⟩ := Counted.run_bind_eq_ok.mp hv
    obtain ⟨b, k', hn, hw⟩ := Counted.run_bind_eq_ok.mp hw
    split at hv
    · cases hv
      rfl
    · rename_i ha
      cases hb : b.truthy with
      | true => exact absurd (h _ _ _ _ _ _ hm hn hb) ha
      | false =>
        rw [hb] at hw
        have hsame := evalOr_related steady limit after
          (fun _ _ _ _ => steady_coupled c _) _ _ _ _ _ _ hv hw
        rw [hsame]
        exact htrue
  | cons x before ih =>
    rw [List.cons_append, evalOr] at hv hw
    obtain ⟨a, k, hx, hv⟩ := Counted.run_bind_eq_ok.mp hv
    obtain ⟨b, k', hx', hw⟩ := Counted.run_bind_eq_ok.mp hw
    cases eval_steady hx hx'
    split at hv
    · cases hv
      rfl
    · rename_i hx
      rw [if_neg hx] at hw
      exact ih hv hw

theorem Narrows.boolOp (h : Narrows c limit m n) (op : BoolOperator) (before after : List Node) :
    Narrows c limit (.boolOp op (before ++ m :: after)) (.boolOp op (before ++ n :: after)) := by
  intro v w i i' j j' hv hw htrue
  cases op with
  | and =>
    rw [eval] at hv hw
    exact evalAnd_narrows h before after (run_tick_bind hv) (run_tick_bind hw) htrue
  | or =>
    rw [eval] at hv hw
    exact evalOr_narrows h before after (run_tick_bind hv) (run_tick_bind hw) htrue

/-- Where both comparisons have a value, the second is true only where the first is. -/
def CompareNarrows (op : CmpOp) (l v l' w : Value) : Prop :=
  ∀ i b i' j b' j', (compareOne op l v).run i = (.ok b, i') →
    (compareOne op l' w).run j = (.ok b', j') → b' = true → b = true

theorem eval_constant (hv : (eval c limit (.constant a)).run i = (.ok v, i')) : v = a := by
  rw [eval] at hv
  have := run_tick_bind hv
  cases this
  rfl

/-- In a chain of comparisons a constant is on the right of one, and on the left of the next. -/
theorem evalCompare_narrows {before after : List (CmpOp × Node)}
    (hright : ∀ l, CompareNarrows op l a l b)
    (hleft : ∀ next ∈ after.head?, ∀ r, CompareNarrows next.1 a r b r)
    (hv : (evalCompare c limit l (before ++ (op, .constant a) :: after)).run i = (.ok v, i'))
    (hw : (evalCompare c limit l (before ++ (op, .constant b) :: after)).run j = (.ok w, j'))
    (htrue : w.truthy = true) : v.truthy = true := by
  induction before generalizing l i j with
  | nil =>
    rw [List.nil_append, evalCompare] at hv hw
    obtain ⟨_, k, ha, hv⟩ := Counted.run_bind_eq_ok.mp hv
    obtain ⟨_, k', hb, hw⟩ := Counted.run_bind_eq_ok.mp hw
    cases eval_constant ha
    cases eval_constant hb
    obtain ⟨x, k₁, hx, hv⟩ := Counted.run_bind_eq_ok.mp hv
    obtain ⟨y, k₂, hy, hw⟩ := Counted.run_bind_eq_ok.mp hw
    split at hw
    · rename_i hytrue
      rw [hright l _ _ _ _ _ _ hx hy hytrue, if_pos rfl] at hv
      cases after with
      | nil =>
        cases hv
        rfl
      | cons next after =>
        obtain ⟨op', node⟩ := next
        rw [evalCompare] at hv hw
        obtain ⟨r, k₃, hr, hv⟩ := Counted.run_bind_eq_ok.mp hv
        obtain ⟨r', k₄, hr', hw⟩ := Counted.run_bind_eq_ok.mp hw
        cases eval_steady hr hr'
        obtain ⟨x, k₅, hx, hv⟩ := Counted.run_bind_eq_ok.mp hv
        obtain ⟨y, k₆, hy, hw⟩ := Counted.run_bind_eq_ok.mp hw
        split at hw
        · rename_i hytrue
          rw [hleft _ rfl r _ _ _ _ _ _ hx hy hytrue, if_pos rfl] at hv
          have hsame := evalCompare_related steady limit after rfl
            (fun _ _ _ _ => steady_coupled c _) _ _ _ _ _ _ hv hw
          rw [hsame]
          exact htrue
        · cases hw
          cases htrue
    · cases hw
      cases htrue
  | cons x before ih =>
    obtain ⟨op', node⟩ := x
    rw [List.cons_append, evalCompare] at hv hw
    obtain ⟨r, k, hr, hv⟩ := Counted.run_bind_eq_ok.mp hv
    obtain ⟨r', k', hr', hw⟩ := Counted.run_bind_eq_ok.mp hw
    cases eval_steady hr hr'
    obtain ⟨x, k₁, hx, hv⟩ := Counted.run_bind_eq_ok.mp hv
    obtain ⟨y, k₂, hy, hw⟩ := Counted.run_bind_eq_ok.mp hw
    cases (timeless_compareOne op' l r).eq hx hy
    split at hv
    · rename_i hxtrue
      rw [if_pos hxtrue] at hw
      exact ih hv hw
    · rename_i hxfalse
      rw [if_neg hxfalse] at hw
      cases hw
      cases htrue

theorem narrows_compare {before after : List (CmpOp × Node)} (left : Node)
    (hright : ∀ l, CompareNarrows op l a l b)
    (hleft : ∀ next ∈ after.head?, ∀ r, CompareNarrows next.1 a r b r) :
    Narrows c limit (.compare left (before ++ (op, .constant a) :: after))
      (.compare left (before ++ (op, .constant b) :: after)) := by
  intro v w i i' j j' hv hw htrue
  rw [eval] at hv hw
  obtain ⟨l, k, hl, hv⟩ := Counted.run_bind_eq_ok.mp (run_tick_bind hv)
  obtain ⟨l', k', hl', hw⟩ := Counted.run_bind_eq_ok.mp (run_tick_bind hw)
  cases eval_steady hl hl'
  exact evalCompare_narrows hright hleft hv hw htrue

end

/-! ## Limits -/

/-- `>` and `>=`. -/
def CmpOp.IsAbove (op : CmpOp) : Prop := op = .gt ∨ op = .gtE

/-- `<` and `<=`. -/
def CmpOp.IsBelow (op : CmpOp) : Prop := op = .lt ∨ op = .ltE

theorem kind_of_ordered (h : (compareOne.ordered l r holds).run i = (.ok b, i')) :
    l.sameOrderableKind r = true := by
  unfold compareOne.ordered at h
  split at h
  · assumption
  · cases h

/-- The four operators that order, of integers. -/
def CmpOp.holds : CmpOp → Int → Int → Prop
  | .lt, m, n => m < n
  | .ltE, m, n => m ≤ n
  | .gt, m, n => n < m
  | _, m, n => n ≤ m

/-- What is ordered with an integer is an integer. -/
theorem int_of_sameOrderableKind {l r : Value} (h : l.sameOrderableKind r = true)
    (hr : r.int? = some n) : ∃ m, l = .int m ∧ r = .int n := by
  cases r with
  | int k =>
    cases hr
    cases l with
    | int m => exact ⟨m, rfl, rfl⟩
    | _ => cases h
  | bool b => cases l <;> cases h
  | _ => cases hr

theorem sameOrderableKind_comm (l r : Value) : l.sameOrderableKind r = r.sameOrderableKind l := by
  rw [Value.sameOrderableKind, Value.sameOrderableKind, Bool.and_comm l.isNumber,
    Bool.and_comm l.isText]

theorem sameOrderableKind_of_compareOne (hop : op.IsAbove ∨ op.IsBelow)
    (h : (compareOne op l r).run i = (.ok b, i')) : l.sameOrderableKind r = true := by
  obtain (rfl | rfl) | rfl | rfl := hop
  all_goals exact kind_of_ordered h

theorem compareOne_int (hop : op.IsAbove ∨ op.IsBelow)
    (h : (compareOne op (.int m) (.int n)).run i = (.ok b, i')) : b = true ↔ op.holds m n := by
  obtain (rfl | rfl) | rfl | rfl := hop
  all_goals
    cases h
    exact decide_eq_true_iff

theorem narrows_right (hop : op.IsAbove ∨ op.IsBelow) (ha : a.int? = some old)
    (hb : b.int? = some new) (himp : ∀ m, op.holds m new → op.holds m old) (l : Value) :
    CompareNarrows op l a l b := by
  intro i x i' j y j' hx hy htrue
  obtain ⟨m, rfl, rfl⟩ := int_of_sameOrderableKind (sameOrderableKind_of_compareOne hop hx) ha
  obtain ⟨_, -, rfl⟩ := int_of_sameOrderableKind (sameOrderableKind_of_compareOne hop hy) hb
  exact (compareOne_int hop hx).mpr (himp m ((compareOne_int hop hy).mp htrue))

theorem narrows_left (hop : op.IsAbove ∨ op.IsBelow) (ha : a.int? = some old)
    (hb : b.int? = some new) (himp : ∀ m, op.holds new m → op.holds old m) (r : Value) :
    CompareNarrows op a r b r := by
  intro i x i' j y j' hx hy htrue
  have hkind := sameOrderableKind_of_compareOne hop hx
  have hkind' := sameOrderableKind_of_compareOne hop hy
  rw [sameOrderableKind_comm] at hkind hkind'
  obtain ⟨m, rfl, rfl⟩ := int_of_sameOrderableKind hkind ha
  obtain ⟨_, -, rfl⟩ := int_of_sameOrderableKind hkind' hb
  exact (compareOne_int hop hx).mpr (himp m ((compareOne_int hop hy).mp htrue))

theorem CmpOp.IsAbove.antitone {op : CmpOp} (hop : op.IsAbove) (hle : old ≤ new) (m : Int)
    (h : op.holds m new) : op.holds m old := by
  obtain rfl | rfl := hop
  · exact lt_of_le_of_lt hle h
  · exact le_trans hle h

theorem CmpOp.IsAbove.monotone {op : CmpOp} (hop : op.IsAbove) (hle : old ≤ new) (m : Int)
    (h : op.holds old m) : op.holds new m := by
  obtain rfl | rfl := hop
  · exact lt_of_lt_of_le h hle
  · exact le_trans h hle

theorem CmpOp.IsBelow.monotone {op : CmpOp} (hop : op.IsBelow) (hle : old ≤ new) (m : Int)
    (h : op.holds m old) : op.holds m new := by
  obtain rfl | rfl := hop
  · exact lt_of_lt_of_le h hle
  · exact le_trans h hle

theorem CmpOp.IsBelow.antitone {op : CmpOp} (hop : op.IsBelow) (hle : old ≤ new) (m : Int)
    (h : op.holds new m) : op.holds old m := by
  obtain rfl | rfl := hop
  · exact lt_of_le_of_lt hle h
  · exact le_trans hle h

/-- The second tree is the first with another integer for one that is a limit: under `and`, `or`
and `not` alone, and after `>` or `>=` where the number of `not` is even, after `<` or `<=` where
it is odd. In a chain the comparison that follows has to turn the same way. -/
inductive Limit (old new : Int) : Bool → Node → Node → Prop where
  | upper {left : Node} {before after : List (CmpOp × Node)} {op : CmpOp} {a b : Value}
      (hop : op.IsAbove) (hnext : ∀ next ∈ after.head?, next.1.IsBelow) (hold : a.int? = some old)
      (hnew : b.int? = some new) :
      Limit old new true (.compare left (before ++ (op, .constant a) :: after))
        (.compare left (before ++ (op, .constant b) :: after))
  | lower {left : Node} {before after : List (CmpOp × Node)} {op : CmpOp} {a b : Value}
      (hop : op.IsBelow) (hnext : ∀ next ∈ after.head?, next.1.IsAbove) (hold : a.int? = some old)
      (hnew : b.int? = some new) :
      Limit old new false (.compare left (before ++ (op, .constant a) :: after))
        (.compare left (before ++ (op, .constant b) :: after))
  | boolOp {before after : List Node} (op : BoolOperator) (h : Limit old new positive m n) :
      Limit old new positive (.boolOp op (before ++ m :: after)) (.boolOp op (before ++ n :: after))
  | not (h : Limit old new positive m n) :
      Limit old new (!positive) (.unaryOp .not m) (.unaryOp .not n)

theorem Limit.moved (h : Limit old new positive m n) : Moved (fun _ _ => True) old new m n := by
  induction h with
  | upper _ _ hold hnew => exact .here trivial hold hnew
  | lower _ _ hold hnew => exact .here trivial hold hnew
  | boolOp op _ ih => exact .boolOp op ih
  | not _ ih => exact .unaryOp .not ih

/-- A limit that goes up makes a rule narrower, and wider under an odd number of `not`. -/
theorem Limit.narrows (h : Limit old new positive m n) (hle : old ≤ new) (c : EvaluationContext)
    (limit : Nat) : if positive then Narrows c limit m n else Narrows c limit n m := by
  induction h with
  | upper hop hnext hold hnew =>
    refine narrows_compare _ (narrows_right (.inl hop) hold hnew (hop.antitone hle))
      fun next hmem => ?_
    exact narrows_left (.inr (hnext next hmem)) hold hnew ((hnext next hmem).antitone hle)
  | lower hop hnext hold hnew =>
    refine narrows_compare _ (narrows_right (.inr hop) hnew hold (hop.monotone hle))
      fun next hmem => ?_
    exact narrows_left (.inl (hnext next hmem)) hnew hold ((hnext next hmem).monotone hle)
  | @boolOp positive _ _ _ _ op _ ih =>
    cases positive with
    | true => exact Narrows.boolOp ih op _ _
    | false => exact Narrows.boolOp ih op _ _
  | @not positive _ _ _ ih =>
    cases positive with
    | true => exact Narrows.not ih
    | false => exact Narrows.not ih

/-! ## Telling the truth -/

/-- A change that is marked looser stops no more than before, and one that is not stops no less:
in every context in which both rules evaluate. -/
def ThresholdChange.TellsTruth (t : ThresholdChange) (m n : Node) : Prop :=
  ∀ (c : EvaluationContext) (limit : Nat) (b b' : Bool) (i i' : Nat),
    (Interpreter.run c limit m).run 0 = (.ok b, i) →
    (Interpreter.run c limit n).run 0 = (.ok b', i') →
    if t.looser then b' = true → b = true else b = true → b' = true

theorem run_eq_ok (h : (Interpreter.run c limit m).run i = (.ok b, i')) :
    ∃ v, (eval c limit m).run i = (.ok v, i') ∧ b = v.truthy := by
  obtain ⟨v, k, hv, hb⟩ := Counted.run_bind_eq_ok.mp h
  cases hb
  exact ⟨v, hv, rfl⟩

theorem Limit.symm (h : Limit old new positive m n) : Limit new old positive n m := by
  induction h with
  | upper hop hnext hold hnew => exact .upper hop hnext hnew hold
  | lower hop hnext hold hnew => exact .lower hop hnext hnew hold
  | boolOp op _ ih => exact .boolOp op ih
  | not _ ih => exact .not ih

theorem Limit.tellsTruth {t : ThresholdChange} (h : Limit t.before t.after true m n) :
    t.TellsTruth m n := by
  intro c limit b b' i i' hb hb'
  obtain ⟨v, hv, rfl⟩ := run_eq_ok hb
  obtain ⟨w, hw, rfl⟩ := run_eq_ok hb'
  by_cases hlooser : t.before < t.after
  · have hnarrows : Narrows c limit m n := h.narrows (le_of_lt hlooser) c limit
    rw [ThresholdChange.looser, decide_eq_true hlooser]
    exact hnarrows _ _ _ _ _ _ hv hw
  · have hnarrows : Narrows c limit n m := h.symm.narrows (not_lt.mp hlooser) c limit
    rw [ThresholdChange.looser, decide_eq_false hlooser]
    exact hnarrows _ _ _ _ _ _ hw hv

/-- One comparison of a fact with an integer. -/
def comparison (fact : String) (op : CmpOp) (n : Int) : Node :=
  .compare (.name fact) [(op, .constant (.int n))]

/-- The context of one integer fact. -/
def oneFact (fact : String) (x : Int) : EvaluationContext :=
  ⟨(∅ : Dict String Value).set fact (.int x), fun _ => none⟩

theorem run_comparison (fact : String)
    (h : ∀ i, (compareOne op (.int x) (.int n)).run i = (.ok b, i)) :
    (Interpreter.run (oneFact fact x) maxSteps (comparison fact op n)).run 0 = (.ok b, 3) := by
  have hname : (eval (oneFact fact x) maxSteps (.name fact)).run 1 = (.ok (.int x), 2) := by
    rw [eval_name, readFact]
    have hget : (oneFact fact x).facts.get? fact = some (.int x) := Dict.get?_set_self ..
    rw [hget]
    rfl
  have hconstant : (eval (oneFact fact x) maxSteps (.constant (.int n))).run 2 =
      (.ok (.int n), 3) := by
    rw [eval]
    rfl
  have heval : (eval (oneFact fact x) maxSteps (comparison fact op n)).run 0 =
      (.ok (.bool b), 3) := by
    rw [comparison, eval]
    have htick : (tick maxSteps).run 0 = (.ok (), 1) := rfl
    rw [Counted.run_bind_of_ok htick, Counted.run_bind_of_ok hname, evalCompare,
      Counted.run_bind_of_ok hconstant, Counted.run_bind_of_ok (h 3)]
    cases b with
    | true => rfl
    | false => rfl
  rw [Interpreter.run, Counted.run_bind_of_ok heval]
  rfl

/-- The operators whose truth turns with the number, or against what `looser` says. -/
def CmpOp.Misread (op : CmpOp) : Prop := op = .lt ∨ op = .ltE ∨ op = .eq ∨ op = .notEq

theorem pyEq_int_self (n : Int) : (Value.int n).pyEq (.int n) = true := by
  simp [Value.pyEq, Value.number?]

theorem pyEq_int_of_ne (h : m ≠ n) : (Value.int m).pyEq (.int n) = false := by
  simpa [Value.pyEq, Value.number?] using h

/-- Nothing is in a number. -/
theorem run_membership_ne_ok (hop : op = .in ∨ op = .notIn) :
    (Interpreter.run c limit (comparison fact op n)).run i ≠ (.ok b, i') := by
  intro h
  obtain ⟨v, hv, -⟩ := run_eq_ok h
  rw [comparison, eval] at hv
  obtain ⟨l, k, -, hv⟩ := Counted.run_bind_eq_ok.mp (run_tick_bind hv)
  rw [evalCompare] at hv
  obtain ⟨r, k', hr, hv⟩ := Counted.run_bind_eq_ok.mp hv
  cases eval_constant hr
  obtain ⟨result, k'', hresult, -⟩ := Counted.run_bind_eq_ok.mp hv
  obtain rfl | rfl := hop
  · cases hresult
  · cases hresult

/-- Such an operator has, for two different numbers, a fact that it is true of with the second and
false of with the first. -/
theorem CmpOp.Misread.exists_fact {op : CmpOp} (hop : op.Misread) (hlt : m < n) :
    ∃ x, (∀ i, (compareOne op (.int x) (.int m)).run i = (.ok false, i)) ∧
      ∀ i, (compareOne op (.int x) (.int n)).run i = (.ok true, i) := by
  have hlt' : ¬ n < m := not_lt.mpr (le_of_lt hlt)
  obtain rfl | rfl | rfl | rfl := hop
  · refine ⟨m, fun i => ?_, fun i => ?_⟩
    · exact congrArg (fun b => (Except.ok b, i)) (decide_eq_false (lt_irrefl m))
    · exact congrArg (fun b => (Except.ok b, i)) (decide_eq_true hlt)
  · refine ⟨n, fun i => ?_, fun i => ?_⟩
    · exact congrArg (fun b => (Except.ok b, i)) (decide_eq_false (not_le.mpr hlt))
    · exact congrArg (fun b => (Except.ok b, i)) (decide_eq_true (le_refl n))
  · refine ⟨n, fun i => ?_, fun i => ?_⟩
    · exact congrArg (fun b => (Except.ok b, i)) (pyEq_int_of_ne (ne_of_gt hlt))
    · exact congrArg (fun b => (Except.ok b, i)) (pyEq_int_self n)
  · refine ⟨m, fun i => ?_, fun i => ?_⟩
    · exact congrArg (fun b => (Except.ok !b, i)) (pyEq_int_self m)
    · exact congrArg (fun b => (Except.ok !b, i)) (pyEq_int_of_ne (ne_of_lt hlt))

/-- A change in a rule that is one comparison. -/
theorem tellsTruth_comparison_iff {t : ThresholdChange} (hne : t.before ≠ t.after)
    (hop : op.typeName ∈ allowedNodes) (fact : String) :
    t.TellsTruth (comparison fact op t.before) (comparison fact op t.after) ↔ ¬ op.Misread := by
  constructor
  · intro h hmisread
    by_cases hlooser : t.before < t.after
    · obtain ⟨x, hbefore, hafter⟩ := hmisread.exists_fact hlooser
      have htruth := h _ _ _ _ _ _ (run_comparison fact hbefore) (run_comparison fact hafter)
      rw [ThresholdChange.looser, decide_eq_true hlooser, if_pos rfl] at htruth
      cases htruth rfl
    · obtain ⟨x, hafter, hbefore⟩ :=
        hmisread.exists_fact (lt_of_le_of_ne (not_lt.mp hlooser) (Ne.symm hne))
      have htruth := h _ _ _ _ _ _ (run_comparison fact hbefore) (run_comparison fact hafter)
      rw [ThresholdChange.looser, decide_eq_false hlooser, if_neg Bool.false_ne_true] at htruth
      cases htruth rfl
  · intro hread
    have habove (h : op.IsAbove) :
        t.TellsTruth (comparison fact op t.before) (comparison fact op t.after) := by
      have hnext : ∀ next ∈ ([] : List (CmpOp × Node)).head?, next.1.IsBelow := fun _ hnext => by
        cases hnext
      have hlimit : Limit t.before t.after true
          (.compare (.name fact) ([] ++ [(op, .constant (.int t.before))]))
          (.compare (.name fact) ([] ++ [(op, .constant (.int t.after))])) := .upper h hnext rfl rfl
      exact hlimit.tellsTruth
    cases op with
    | gt => exact habove (.inl rfl)
    | gtE => exact habove (.inr rfl)
    | lt => exact absurd (.inl rfl) hread
    | ltE => exact absurd (.inr (.inl rfl)) hread
    | eq => exact absurd (.inr (.inr (.inl rfl))) hread
    | notEq => exact absurd (.inr (.inr (.inr rfl))) hread
    | is | isNot => exact absurd hop (by decide)
    | «in» => exact fun _ _ _ _ _ _ hb _ => absurd hb (run_membership_ne_ok (.inl rfl))
    | notIn => exact fun _ _ _ _ _ _ hb _ => absurd hb (run_membership_ne_ok (.inr rfl))

/-- A threshold change that is reported tells the truth where the threshold is a limit; and where
the rules are one comparison, exactly where its operator is not misread. -/
theorem looser_tells_truth {py : Python} (hbefore : validateSource py before = .ok m)
    (hafter : validateSource py after = .ok n)
    (hdiff : Diff.compare py before after currency reference author reason = .ok diff)
    (hreported : diff.threshold = some t) :
    (∀ old new, Limit old new true m n → t.TellsTruth m n) ∧
      ∀ fact op, m = comparison fact op t.before → n = comparison fact op t.after →
        (t.TellsTruth m n ↔ ¬ op.Misread) := by
  rw [compare_eq hbefore hafter] at hdiff
  cases hdiff
  obtain ⟨-, hdifferences, -⟩ := thresholdOf_eq_some_iff.mp hreported
  have hne : t.before ≠ t.after :=
    ne_of_mem_differences (hdifferences ▸ List.mem_singleton_self (t.fact, t.before, t.after))
  constructor
  · intro old new hlimit
    by_cases hsame : old = new
    · obtain ⟨left, -, first, last, -, hm, hn⟩ := hlimit.moved.numbers
      rw [hm, hn, hsame, differences_self] at hdifferences
      cases hdifferences
    · obtain ⟨-, left, -, -, honly⟩ := hlimit.moved.numbers.differences hsame
      rw [hdifferences] at honly
      obtain ⟨-, hpair⟩ := Prod.mk.inj (List.cons.inj honly).1
      obtain ⟨rfl, rfl⟩ := Prod.mk.inj hpair
      exact hlimit.tellsTruth
  · rintro fact op rfl rfl
    refine tellsTruth_comparison_iff hne ?_ fact
    have hvisit := (validateSource_eq_ok hbefore).1
    rw [comparison, RuleValidator.visit] at hvisit
    obtain ⟨-, hvisit⟩ := seq_eq_ok.mp hvisit
    obtain ⟨hoperators, -⟩ := seq_eq_ok.mp hvisit
    exact RuleValidator.visitOperators_eq_ok.mp hoperators _ (List.mem_singleton_self _)

/-- A limit of the amount that goes up. -/
theorem looser_tells_truth_amount :
    (⟨"amount_minor", 5, 6, "NGN"⟩ : ThresholdChange).TellsTruth (amountRule .gt 5)
      (amountRule .gt 6) := by
  have hafter : validateSource amountTexts "amount_minor > 6" = .ok (amountRule .gt 6) := rfl
  have hdiff := compare_eq validate_gt_five hafter "NGN" "" "" ""
  have hlimit : Limit 5 6 true (.compare (.name "amount_minor") ([] ++ [(.gt, .constant (.int 5))]))
      (.compare (.name "amount_minor") ([] ++ [(.gt, .constant (.int 6))])) :=
    .upper (.inl rfl) (fun _ hnext => by cases hnext) rfl rfl
  exact (looser_tells_truth validate_gt_five hafter hdiff rfl).1 5 6 hlimit

/-- A floor, below which a rule matches, goes up: the rule stops more than before, and is shown as
looser. -/
theorem raised_floor_shown_as_looser : ¬ ∀ (py : Python) (before after : String) (m n : Node)
    (diff : RuleDiff) (t : ThresholdChange), validateSource py before = .ok m →
    validateSource py after = .ok n → Diff.compare py before after "NGN" "" "" "" = .ok diff →
    diff.threshold = some t → t.TellsTruth m n := by
  intro h
  have hbefore : validateSource amountTexts "amount_minor < 5" = .ok (amountRule .lt 5) := rfl
  have hafter : validateSource amountTexts "amount_minor < 6" = .ok (amountRule .lt 6) := rfl
  have hdiff := compare_eq hbefore hafter "NGN" "" "" ""
  have htruth := h _ _ _ _ _ _ ⟨"amount_minor", 5, 6, "NGN"⟩ hbefore hafter hdiff rfl
  have hne : (5 : Int) ≠ 6 := by decide
  exact (tellsTruth_comparison_iff hne (by decide) "amount_minor").mp htruth (.inl rfl)

end ComplyLayer
