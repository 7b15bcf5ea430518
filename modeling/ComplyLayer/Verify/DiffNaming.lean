import ComplyLayer.Dashboard.Diff
import Mathlib.Logic.Relation

/-!
# What the approval diff names

Two rules differ in one compared constant where one of them is the other with another integer in
that place (`Moved`). The integers of such rules, in the order of the walk, differ in one place
(`Moved.numbers`). The diff goes by the integers alone, so it names the change exactly where the
rules differ in nothing else, and in one word (`names_the_change_iff`).
-/

namespace ComplyLayer

open Theory Diff

/-- A constant that is compared, in a place that `At` allows, is another integer in the second
tree. A place is the left of the comparison and the comparators before it. -/
inductive Moved (At : Node → List (CmpOp × Node) → Prop) (old new : Int) : Node → Node → Prop where
  | here {left : Node} {before after : List (CmpOp × Node)} {op : CmpOp} {v w : Value}
      (hat : At left before) (hold : v.int? = some old) (hnew : w.int? = some new) :
      Moved At old new (.compare left (before ++ (op, .constant v) :: after))
        (.compare left (before ++ (op, .constant w) :: after))
  | boolOp {before after : List Node} (op : BoolOperator) (h : Moved At old new m n) :
      Moved At old new (.boolOp op (before ++ m :: after)) (.boolOp op (before ++ n :: after))
  | unaryOp (op : UnaryOperator) (h : Moved At old new m n) :
      Moved At old new (.unaryOp op m) (.unaryOp op n)
  | left (op : Operator) (right : Node) (h : Moved At old new m n) :
      Moved At old new (.binOp m op right) (.binOp n op right)
  | right (left : Node) (op : Operator) (h : Moved At old new m n) :
      Moved At old new (.binOp left op m) (.binOp left op n)
  | compared (comparators : List (CmpOp × Node)) (h : Moved At old new m n) :
      Moved At old new (.compare m comparators) (.compare n comparators)
  | comparator {before after : List (CmpOp × Node)} (left : Node) (op : CmpOp)
      (h : Moved At old new m n) :
      Moved At old new (.compare left (before ++ (op, m) :: after))
        (.compare left (before ++ (op, n) :: after))
  | arg {before after : List Node} (func : Node) (keywords : List (Option String × Node))
      (h : Moved At old new m n) :
      Moved At old new (.call func (before ++ m :: after) keywords)
        (.call func (before ++ n :: after) keywords)
  | keyword {before after : List (Option String × Node)} (func : Node) (args : List Node)
      (arg : Option String) (h : Moved At old new m n) :
      Moved At old new (.call func args (before ++ (arg, m) :: after))
        (.call func args (before ++ (arg, n) :: after))
  | list {before after : List Node} (h : Moved At old new m n) :
      Moved At old new (.list (before ++ m :: after)) (.list (before ++ n :: after))
  | tuple {before after : List Node} (h : Moved At old new m n) :
      Moved At old new (.tuple (before ++ m :: after)) (.tuple (before ++ n :: after))

/-! ## The walk -/

section
variable {At : Node → List (CmpOp × Node) → Prop} {old new : Int}

theorem walkAll_append (before after : List Node) (n : Node) :
    Node.walkAll (before ++ n :: after) = Node.walkAll before + n.walk + Node.walkAll after := by
  induction before with
  | nil => simp [Node.walkAll]
  | cons m before ih => simp only [List.cons_append, Node.walkAll, ih]; omega

theorem walkComparators_append (before after : List (CmpOp × Node)) (op : CmpOp) (n : Node) :
    Node.walkComparators (before ++ (op, n) :: after) =
      Node.walkComparators before + n.walk + Node.walkComparators after + 1 := by
  induction before with
  | nil => simp only [List.nil_append, Node.walkComparators]; omega
  | cons m before ih => simp only [List.cons_append, Node.walkComparators, ih]; omega

theorem walkKeywords_append (before after : List (Option String × Node)) (arg : Option String)
    (n : Node) : Node.walkKeywords (before ++ (arg, n) :: after) =
      Node.walkKeywords before + n.walk + Node.walkKeywords after + 1 := by
  induction before with
  | nil => simp only [List.nil_append, Node.walkKeywords]; omega
  | cons m before ih => simp only [List.cons_append, Node.walkKeywords, ih]; omega

theorem Moved.walk (h : Moved At old new m n) : m.walk = n.walk := by
  induction h with
  | here => simp only [Node.walk, walkComparators_append]
  | boolOp _ _ ih | list _ ih | tuple _ ih => simp only [Node.walk, walkAll_append, ih]
  | unaryOp _ _ ih | left _ _ _ ih | right _ _ _ ih => simp only [Node.walk, ih]
  | compared _ _ ih => simp only [Node.walk, ih]
  | comparator _ _ _ ih => simp only [Node.walk, walkComparators_append, ih]
  | arg _ _ _ ih => simp only [Node.walk, walkAll_append, ih]
  | keyword _ _ _ _ ih => simp only [Node.walk, walkKeywords_append, ih]

def Visited.walk : Visited → Nat
  | node n => n.walk
  | keyword value => 1 + value.walk

def walkQueue (queue : List Visited) : Nat := (queue.map Visited.walk).sum

@[simp] theorem walkQueue_append (queue rest : List Visited) :
    walkQueue (queue ++ rest) = walkQueue queue + walkQueue rest := by
  simp [walkQueue]

@[simp] theorem walkQueue_cons (v : Visited) (queue : List Visited) :
    walkQueue (v :: queue) = v.walk + walkQueue queue := rfl

@[simp] theorem walkQueue_nil : walkQueue [] = 0 := rfl

theorem walkQueue_nodes (nodes : List Node) :
    walkQueue (nodes.map .node) = Node.walkAll nodes := by
  induction nodes with
  | nil => rfl
  | cons n nodes ih => rw [List.map_cons, walkQueue_cons, ih]; rfl

theorem walkQueue_comparators (comparators : List (CmpOp × Node)) :
    walkQueue ((comparators.map Prod.snd).map .node) ≤ Node.walkComparators comparators := by
  induction comparators with
  | nil => exact Nat.le_refl 0
  | cons c comparators ih =>
    simp only [List.map_cons, walkQueue_cons, Node.walkComparators, Visited.walk]
    omega

theorem walkQueue_keywords (keywords : List (Option String × Node)) :
    walkQueue (keywords.map fun keyword => .keyword keyword.2) = Node.walkKeywords keywords := by
  induction keywords with
  | nil => rfl
  | cons k keywords ih =>
    rw [List.map_cons, walkQueue_cons, ih]
    rfl

/-- What is below a node is less than the node. -/
theorem walkQueue_children (v : Visited) : walkQueue v.children < v.walk := by
  cases v with
  | keyword value => simp [Visited.children, Visited.walk]
  | node n =>
    cases n with
    | constant | name => simp [Visited.children, Node.children, Visited.walk, Node.walk]
    | boolOp | list | tuple =>
      simp only [Visited.children, Node.children, Visited.walk, Node.walk, walkQueue_nodes]
      omega
    | unaryOp | binOp | attributeOf | subscript =>
      simp only [Visited.children, Node.children, Visited.walk, Node.walk, List.map_cons,
        List.map_nil, walkQueue_cons, walkQueue_nil]
      omega
    | compare left comparators =>
      have := walkQueue_comparators comparators
      simp only [Visited.children, Node.children, Visited.walk, Node.walk, List.map_cons,
        walkQueue_cons]
      omega
    | call func args keywords =>
      simp only [Visited.children, Visited.walk, Node.walk, walkQueue_cons, walkQueue_append,
        walkQueue_nodes, walkQueue_keywords]
      omega
    | other =>
      simp only [Visited.children, Node.children, Visited.walk, Node.walk, walkQueue_nodes]
      omega

/-- The integers a walk comes to. -/
def numbersFrom (fuel : Nat) (queue : List Visited) : List (String × Int) :=
  (walkFrom fuel queue).flatMap Visited.numbers

theorem numbersFrom_cons (fuel : Nat) (v : Visited) (queue : List Visited) :
    numbersFrom (fuel + 1) (v :: queue) = v.numbers ++ numbersFrom fuel (queue ++ v.children) := rfl

/-- A constant that waits in the queue is no comparison. -/
theorem numbersFrom_constant (fuel : Nat) (before after : List Visited) (v w : Value) :
    numbersFrom fuel (before ++ .node (.constant v) :: after) =
      numbersFrom fuel (before ++ .node (.constant w) :: after) := by
  induction fuel generalizing before after with
  | zero => rfl
  | succ fuel ih =>
    cases before with
    | nil => rfl
    | cons x before =>
      simp only [List.cons_append, numbersFrom_cons, List.append_assoc, ih]

/-- The same for what is in a queue. -/
inductive Visited.Moved (At : Node → List (CmpOp × Node) → Prop) (old new : Int) :
    Visited → Visited → Prop where
  | node (h : ComplyLayer.Moved At old new m n) : Moved At old new (.node m) (.node n)
  | keyword (h : ComplyLayer.Moved At old new m n) : Moved At old new (.keyword m) (.keyword n)

/-- Two lists of numbers differ in one place. -/
def OnePlace (At : Node → List (CmpOp × Node) → Prop) (old new : Int)
    (l l' : List (String × Int)) : Prop :=
  ∃ left comparators before after, At left comparators ∧
    l = before ++ (factName left, old) :: after ∧ l' = before ++ (factName left, new) :: after

theorem OnePlace.append (h : OnePlace At old new l l') (before : List (String × Int)) :
    OnePlace At old new (before ++ l) (before ++ l') := by
  obtain ⟨left, comparators, first, after, hat, rfl, rfl⟩ := h
  exact ⟨left, comparators, before ++ first, after, hat, (List.append_assoc ..).symm,
    (List.append_assoc ..).symm⟩

theorem Moved.int?_left (h : Moved At old new m n) : m.int? = none := by
  cases h <;> rfl

theorem Moved.int?_right (h : Moved At old new m n) : n.int? = none := by
  cases h <;> rfl

theorem Moved.factName_eq (h : Moved At old new m n) : factName m = factName n := by
  cases h with
  | arg func | keyword func => cases func <;> rfl
  | _ => rfl

/-- A comparator, if it is an integer, under the name on the left. -/
def comparedNumber (left : Node) (comparator : CmpOp × Node) : Option (String × Int) :=
  comparator.2.int?.map fun n => (factName left, n)

theorem numbers_compare (left : Node) (before after : List (CmpOp × Node)) (op : CmpOp)
    (h : v.int? = some n) :
    (Visited.node (.compare left (before ++ (op, .constant v) :: after))).numbers =
      before.filterMap (comparedNumber left) ++
        (factName left, n) :: after.filterMap (comparedNumber left) := by
  change (before ++ (op, .constant v) :: after).filterMap (comparedNumber left) = _
  have hnamed : comparedNumber left (op, .constant v) = some (factName left, n) := by
    simp only [comparedNumber, Node.int?, h, Option.map_some]
  rw [List.filterMap_append, List.filterMap_cons_some hnamed]

/-- What waits below: the node is the comparison, and only a constant is another; or its own
numbers are the same, and the difference is below it. -/
theorem Visited.Moved.cases (h : Visited.Moved At old new v w) :
    (∃ before after x y, OnePlace At old new v.numbers w.numbers ∧
      v.children = before ++ .node (.constant x) :: after ∧
      w.children = before ++ .node (.constant y) :: after) ∨
    ∃ before after x y, v.numbers = w.numbers ∧ Visited.Moved At old new x y ∧
      v.children = before ++ x :: after ∧ w.children = before ++ y :: after := by
  cases h with
  | keyword h => exact .inr ⟨[], [], _, _, rfl, .node h, rfl, rfl⟩
  | node h =>
    cases h with
    | @here left before after op x y hat hold hnew =>
      refine .inl ⟨.node left :: (before.map Prod.snd).map .node, (after.map Prod.snd).map .node, x,
        y, ⟨left, before, before.filterMap (comparedNumber left),
          after.filterMap (comparedNumber left), hat, ?_, ?_⟩,
        ?_, ?_⟩
      · exact numbers_compare left before after op hold
      · exact numbers_compare left before after op hnew
      · simp [Visited.children, Node.children]
      · simp [Visited.children, Node.children]
    | @boolOp _ _ before after _ h | @list _ _ before after h | @tuple _ _ before after h =>
      refine .inr ⟨before.map .node, after.map .node, _, _, rfl, .node h, ?_, ?_⟩
      · simp [Visited.children, Node.children]
      · simp [Visited.children, Node.children]
    | unaryOp _ h => exact .inr ⟨[], [], _, _, rfl, .node h, rfl, rfl⟩
    | left _ right h => exact .inr ⟨[], [.node right], _, _, rfl, .node h, rfl, rfl⟩
    | right left _ h => exact .inr ⟨[.node left], [], _, _, rfl, .node h, rfl, rfl⟩
    | compared comparators h =>
      refine .inr ⟨[], (comparators.map Prod.snd).map .node, _, _, ?_, .node h, rfl, rfl⟩
      simp only [Visited.numbers, h.factName_eq]
    | @comparator _ _ before after left op h =>
      refine .inr ⟨.node left :: (before.map Prod.snd).map .node, (after.map Prod.snd).map .node,
        _, _, ?_, .node h, ?_, ?_⟩
      · simp only [Visited.numbers, List.filterMap_append, List.filterMap_cons, h.int?_left,
          h.int?_right]
      · simp [Visited.children, Node.children]
      · simp [Visited.children, Node.children]
    | @arg _ _ before after func keywords h =>
      refine .inr ⟨.node func :: before.map .node,
        after.map .node ++ keywords.map fun keyword => .keyword keyword.2, _, _, rfl, .node h, ?_, ?_⟩
      · simp [Visited.children]
      · simp [Visited.children]
    | @keyword _ _ before after func args _ h =>
      refine .inr ⟨.node func :: (args.map .node ++ before.map fun keyword => .keyword keyword.2),
        after.map fun keyword => .keyword keyword.2, _, _, rfl, .keyword h, ?_, ?_⟩
      · simp [Visited.children]
      · simp [Visited.children]

/-- The numbers of a walk that comes to a moved constant differ in its place. -/
theorem Visited.Moved.numbersFrom (fuel : Nat) {before after : List Visited}
    (h : Visited.Moved At old new v w) (hfuel : walkQueue (before ++ v :: after) ≤ fuel) :
    OnePlace At old new (ComplyLayer.numbersFrom fuel (before ++ v :: after))
      (ComplyLayer.numbersFrom fuel (before ++ w :: after)) := by
  induction fuel generalizing before after v w with
  | zero =>
    have := walkQueue_children v
    simp only [walkQueue_append, walkQueue_cons] at hfuel
    omega
  | succ fuel ih =>
    cases before with
    | cons x before =>
      have := walkQueue_children x
      simp only [List.cons_append, numbersFrom_cons, List.append_assoc]
      refine (ih h ?_).append x.numbers
      simp only [List.cons_append, walkQueue_append, walkQueue_cons] at hfuel ⊢
      omega
    | nil =>
      have hchildren := walkQueue_children v
      simp only [List.nil_append, numbersFrom_cons]
      obtain ⟨first, last, x, y, hone, hv, hw⟩ | ⟨first, last, x, y, hsame, hmoved, hv, hw⟩ := h.cases
      · have hrest := numbersFrom_constant fuel (after ++ first) last x y
        obtain ⟨left, comparators, l, l', hat, hnumbers, hnumbers'⟩ := hone
        rw [hv, hw, ← List.append_assoc, ← List.append_assoc, hrest, hnumbers, hnumbers']
        exact ⟨left, comparators, l, l' ++ _, hat, List.append_assoc .., List.append_assoc ..⟩
      · rw [hv, walkQueue_append, walkQueue_cons] at hchildren
        rw [hsame, hv, hw, ← List.append_assoc, ← List.append_assoc]
        refine (ih hmoved ?_).append w.numbers
        simp only [List.nil_append, walkQueue_append, walkQueue_cons] at hfuel ⊢
        omega

/-- The numbers of two rules that differ in one compared constant differ in its place. -/
theorem Moved.numbers (h : Moved At old new m n) : OnePlace At old new m.numbers n.numbers := by
  have hsame : n.numbers = numbersFrom m.walk [.node n] := by rw [h.walk]; rfl
  rw [hsame]
  have hfuel : walkQueue ([] ++ [.node m]) ≤ m.walk := Nat.le_refl _
  exact Visited.Moved.numbersFrom m.walk (.node h) hfuel

/-! ## The differences -/

/-- Two lists of numbers are equally long, and differ in one place. -/
def DifferOnce (l l' : List (String × Int)) : Prop :=
  l.length = l'.length ∧ ∃ difference, differences l l' = [difference]

theorem differences_cons (x y : String × Int) (l l' : List (String × Int)) :
    differences (x :: l) (y :: l') =
      (if x.2 ≠ y.2 then [(x.1, x.2, y.2)] else []) ++ differences l l' := by
  by_cases h : x.2 = y.2
  · simp [differences, h]
  · simp [differences, h]

@[simp] theorem differences_self (l : List (String × Int)) : differences l l = [] := by
  induction l with
  | nil => rfl
  | cons x l ih => rw [differences_cons, ih, if_neg (not_not.mpr rfl)]; rfl

theorem OnePlace.differences (h : OnePlace At old new l l') (hne : old ≠ new) :
    l.length = l'.length ∧ ∃ left comparators, At left comparators ∧
      Diff.differences l l' = [(factName left, old, new)] := by
  obtain ⟨left, comparators, before, after, hat, rfl, rfl⟩ := h
  refine ⟨by simp, left, comparators, hat, ?_⟩
  induction before with
  | nil => rw [List.nil_append, List.nil_append, differences_cons, differences_self, if_pos hne]; rfl
  | cons x before ih =>
    rw [List.cons_append, List.cons_append, differences_cons, ih, if_neg (not_not.mpr rfl)]
    rfl

theorem thresholdOf_eq_some_iff : thresholdOf l l' currency = some t ↔
    l.length = l'.length ∧ Diff.differences l l' = [(t.fact, t.before, t.after)] ∧
      t.currency = currency := by
  obtain ⟨fact, old, new, other⟩ := t
  unfold thresholdOf
  split
  · rename_i hlength
    split
    · rename_i name m n hdifferences
      rw [hdifferences]
      simp only [Option.some.injEq, ThresholdChange.mk.injEq, hlength, true_and, List.cons.injEq,
        Prod.mk.injEq, and_true]
      tauto
    · rename_i hnone
      refine iff_of_false (by simp) fun h => hnone _ _ _ h.2.1
  · rename_i hlength
    exact iff_of_false (by simp) fun h => hlength h.1

theorem ne_of_mem_differences (h : (fact, old, new) ∈ Diff.differences l l') : old ≠ new := by
  obtain ⟨⟨x, y⟩, -, hxy⟩ := List.mem_filterMap.mp h
  by_cases hsame : x.2 = y.2
  · simp [hsame] at hxy
  · simp only [ne_eq, hsame, not_false_eq_true, if_true, Option.some.injEq, Prod.mk.injEq] at hxy
    obtain ⟨-, rfl, rfl⟩ := hxy
    exact hsame

theorem map_eq_of_differences (hlength : l.length = l'.length)
    (h : Diff.differences l l' = []) : l.map Prod.snd = l'.map Prod.snd := by
  induction l generalizing l' with
  | nil =>
    rw [List.length_eq_zero_iff.mp hlength.symm]
  | cons x l ih =>
    cases l' with
    | nil => cases hlength
    | cons y l' =>
      rw [differences_cons] at h
      obtain ⟨hx, hl⟩ := List.append_eq_nil_iff.mp h
      split at hx
      · cases hx
      · rename_i hsame
        rw [List.map_cons, List.map_cons, not_not.mp hsame, ih (Nat.succ.inj hlength) hl]

/-- A difference adds one to the numbers that have the new value. -/
theorem count_of_differences (hlength : l.length = l'.length)
    (h : Diff.differences l l' = [(fact, old, new)]) :
    (l'.map Prod.snd).count new = (l.map Prod.snd).count new + 1 := by
  induction l generalizing l' with
  | nil => cases h
  | cons x l ih =>
    cases l' with
    | nil => cases hlength
    | cons y l' =>
      have hlength := Nat.succ.inj hlength
      rw [differences_cons] at h
      split at h
      · rename_i hne
        obtain ⟨hhead, hrest⟩ := List.cons.inj h
        cases hhead
        have hmap := map_eq_of_differences hlength hrest
        rw [List.map_cons, List.map_cons, List.count_cons_self, List.count_cons_of_ne hne, hmap]
      · rename_i hsame
        rw [List.map_cons, List.map_cons, not_not.mp hsame, List.count_cons, List.count_cons,
          ih hlength h]
        omega

/-! ## What the diff names -/

/-- The constant is the first that the fact, or the function, of this name is compared with. -/
def ComparedWith (fact : String) (left : Node) (before : List (CmpOp × Node)) : Prop :=
  before = [] ∧ (left = .name fact ∨ ∃ args keywords, left = .call (.name fact) args keywords)

/-- One constant that a fact is compared with is another, and the rules are the same otherwise. -/
def OneConstant (m n : Node) : Prop :=
  ∃ fact old new, old ≠ new ∧ Moved (ComparedWith fact) old new m n

/-- A threshold is reported only where the rules are the same but for constants that its fact is
compared with, and which are changed as reported; and the diff says that a threshold is all that
changed exactly where one constant is. -/
structure NamesTheChange (diff : RuleDiff) (m n : Node) : Prop where
  reported : ∀ t, diff.threshold = some t →
    Relation.ReflTransGen (Moved (ComparedWith t.fact) t.before t.after) m n
  only : diff.isThresholdOnly = true ↔ OneConstant m n

theorem factName_of_comparedWith (h : ComparedWith fact left before) : factName left = fact := by
  obtain ⟨-, rfl | ⟨args, keywords, rfl⟩⟩ := h
  · rfl
  · rfl

/-- The diff of two rules that differ in one constant. -/
theorem threshold_of_moved (h : Moved (ComparedWith fact) old new m n) (hne : old ≠ new)
    (currency : String) :
    thresholdOf m.numbers n.numbers currency = some ⟨fact, old, new, currency⟩ := by
  obtain ⟨hlength, left, comparators, hat, hdifferences⟩ := h.numbers.differences hne
  rw [factName_of_comparedWith hat] at hdifferences
  exact thresholdOf_eq_some_iff.mpr ⟨hlength, hdifferences, rfl⟩

theorem differ_of_moved (h : Moved At old new m n) (hne : old ≠ new) :
    (n.numbers.map Prod.snd).count new = (m.numbers.map Prod.snd).count new + 1 := by
  obtain ⟨hlength, left, -, -, hdifferences⟩ := h.numbers.differences hne
  exact count_of_differences hlength hdifferences

/-- Every constant that is moved adds one to the numbers that have the new value. -/
theorem moved_cases (h : Relation.ReflTransGen (Moved At old new) m n) (hne : old ≠ new) :
    m = n ∨ Moved At old new m n ∨
      (m.numbers.map Prod.snd).count new + 2 ≤ (n.numbers.map Prod.snd).count new := by
  induction h with
  | refl => exact .inl rfl
  | tail _ hstep ih =>
    have hcount := differ_of_moved hstep hne
    obtain rfl | hmoved | hmore := ih
    · exact .inr (.inl hstep)
    · have hbefore := differ_of_moved hmoved hne
      exact .inr (.inr (by omega))
    · exact .inr (.inr (by omega))

/-- The words of the new text that are not in the old one. -/
def newWords (before after : String) : List String :=
  (split after).filter fun token => token ∉ split before

theorem compare_eq {py : Python} (hbefore : validateSource py before = .ok m)
    (hafter : validateSource py after = .ok n) (currency reference author reason : String) :
    Diff.compare py before after currency reference author reason = .ok
      { before := before
        after := after
        threshold := thresholdOf m.numbers n.numbers currency
        changedTokens := newWords before after
        regulatoryReference := reference
        author := author
        reason := reason } := by
  rw [Diff.compare, parse_of_validateSource hbefore, parse_of_validateSource hafter]
  rfl

/-- The diff of two validated rules names what changed exactly where one constant that follows its
fact did, in one new word, or where the integers of the rules do not differ in one place. -/
theorem names_the_change_iff {py : Python} (hbefore : validateSource py before = .ok m)
    (hafter : validateSource py after = .ok n) (currency reference author reason : String) :
    (∃ diff, Diff.compare py before after currency reference author reason = .ok diff ∧
      NamesTheChange diff m n) ↔
      OneConstant m n ∧ (newWords before after).length = 1 ∨ ¬ DifferOnce m.numbers n.numbers := by
  rw [compare_eq hbefore hafter]
  constructor
  · rintro ⟨diff, hdiff, hnames⟩
    cases hdiff
    by_cases hdiffer : DifferOnce m.numbers n.numbers
    · left
      obtain ⟨hlength, ⟨fact, old, new⟩, hdifferences⟩ := hdiffer
      have hthreshold : thresholdOf m.numbers n.numbers currency = some ⟨fact, old, new, currency⟩ :=
        thresholdOf_eq_some_iff.mpr ⟨hlength, hdifferences, rfl⟩
      have hone : OneConstant m n := by
        have hne : old ≠ new :=
          ne_of_mem_differences (hdifferences ▸ List.mem_singleton_self (fact, old, new))
        obtain rfl | hmoved | hmore := moved_cases (hnames.reported _ hthreshold) hne
        · rw [differences_self] at hdifferences
          cases hdifferences
        · exact ⟨fact, old, new, hne, hmoved⟩
        · have hcount := count_of_differences hlength hdifferences
          simp only at hmore
          omega
      refine ⟨hone, ?_⟩
      have honly := hnames.only.mpr hone
      exact beq_iff_eq.mp (Bool.and_eq_true_iff.mp honly).2
    · exact .inr hdiffer
  · rintro (⟨hone, hwords⟩ | hdiffer)
    · refine ⟨_, rfl, ?_, ?_⟩
      · obtain ⟨fact, old, new, hne, hmoved⟩ := hone
        rintro t ht
        rw [threshold_of_moved hmoved hne] at ht
        cases ht
        exact .single hmoved
      · refine iff_of_true ?_ hone
        obtain ⟨fact, old, new, hne, hmoved⟩ := hone
        rw [RuleDiff.isThresholdOnly, threshold_of_moved hmoved hne]
        exact beq_iff_eq.mpr hwords
    · have hthreshold : thresholdOf m.numbers n.numbers currency = none := by
        refine Option.eq_none_iff_forall_ne_some.mpr fun t ht => hdiffer ?_
        obtain ⟨hlength, hdifferences, -⟩ := thresholdOf_eq_some_iff.mp ht
        exact ⟨hlength, _, hdifferences⟩
      refine ⟨_, rfl, ?_, ?_⟩
      · rintro t ht
        rw [hthreshold] at ht
        cases ht
      · refine iff_of_false ?_ ?_
        · rw [RuleDiff.isThresholdOnly, hthreshold]
          exact Bool.false_ne_true
        · rintro ⟨fact, old, new, hne, hmoved⟩
          rw [threshold_of_moved hmoved hne] at hthreshold
          cases hthreshold

end

/-- A runtime whose parser reads these texts. -/
def Python.readingEach (sources : List (String × Node)) : Python :=
  { Python.reading "" (.constant (.bool true)) with
    astParse := fun text =>
      match sources.find? fun source => source.1 = text with
      | some source => .tree source.2
      | none => .refused }

/-- The amount against a number. -/
def amountRule (op : CmpOp) (limit : Nat) : Node :=
  .compare (.name "amount_minor") [(op, .constant (.int limit))]

def amountTexts : Python := .readingEach
  [("amount_minor > 5", amountRule .gt 5), ("amount_minor > 6", amountRule .gt 6),
    ("amount_minor < 5", amountRule .lt 5), ("amount_minor < 6", amountRule .lt 6),
    ("not amount_minor > 6", .unaryOp .not (amountRule .gt 6))]

theorem moved_amountRule (op : CmpOp) (old new : Nat) :
    Moved (ComparedWith "amount_minor") old new (amountRule op old) (amountRule op new) := by
  have hat : ComparedWith "amount_minor" (.name "amount_minor") [] := ⟨rfl, .inl rfl⟩
  exact .here hat rfl rfl

theorem validate_gt_five : validateSource amountTexts "amount_minor > 5" = .ok (amountRule .gt 5) :=
  rfl

theorem names_the_change_amount :
    ∃ diff, Diff.compare amountTexts "amount_minor > 5" "amount_minor > 6" "NGN" "" "" "" =
      .ok diff ∧ NamesTheChange diff (amountRule .gt 5) (amountRule .gt 6) := by
  have hafter : validateSource amountTexts "amount_minor > 6" = .ok (amountRule .gt 6) := rfl
  refine (names_the_change_iff validate_gt_five hafter "NGN" "" "" "").mpr (.inl ⟨?_, by decide⟩)
  exact ⟨"amount_minor", 5, 6, by decide, moved_amountRule .gt 5 6⟩

/-- A rule that is negated is shown as a threshold that moved. -/
theorem negation_shown_as_threshold : ¬ ∀ (py : Python) (before after : String) (m n : Node),
    validateSource py before = .ok m → validateSource py after = .ok n →
    ∃ diff, Diff.compare py before after "NGN" "" "" "" = .ok diff ∧ NamesTheChange diff m n := by
  intro h
  have hafter : validateSource amountTexts "not amount_minor > 6" =
      .ok (.unaryOp .not (amountRule .gt 6)) := rfl
  obtain ⟨diff, hdiff, hnames⟩ := h _ _ _ _ _ validate_gt_five hafter
  rw [compare_eq validate_gt_five hafter] at hdiff
  cases hdiff
  have hreported := hnames.reported ⟨"amount_minor", 5, 6, "NGN"⟩ rfl
  obtain heq | hmoved | hmore := moved_cases hreported (by decide)
  · exact absurd (congrArg Node.walk heq) (by decide)
  · exact absurd hmoved.walk (by decide)
  · exact absurd hmore (by decide)

end ComplyLayer
