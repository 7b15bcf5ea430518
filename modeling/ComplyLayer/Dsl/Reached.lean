import ComplyLayer.Dsl.Related

/-!
# What an evaluation comes to

`Next` is one step of the order the interpreter evaluates a tree in: from a node to an operand, once
those before it are evaluated and none of them ended the node. `Reaches` is that order all the way
down; what raises there raises at the top.
-/

namespace ComplyLayer

open Theory

namespace Interpreter

section
variable {c : EvaluationContext} {limit : Nat} {node : Node}

/-! ## Sequences of operands -/

theorem evalAll_append_error (hbefore : (evalAll c limit before).run i = (.ok values, j))
    (h : (eval c limit node).run j = (.error e, k)) (after : List Node) :
    (evalAll c limit (before ++ node :: after)).run i = (.error e, k) := by
  induction before generalizing i values with
  | nil =>
    cases hbefore
    rw [List.nil_append, evalAll]
    exact Counted.run_bind_of_error h
  | cons first before ih =>
    rw [evalAll] at hbefore
    obtain ⟨v, i', hfirst, hrest⟩ := Counted.run_bind_eq_ok.mp hbefore
    obtain ⟨vs, j', hvs, hvalues⟩ := Counted.run_bind_eq_ok.mp hrest
    cases hvalues
    rw [List.cons_append, evalAll, Counted.run_bind_of_ok hfirst]
    exact Counted.run_bind_of_error (ih hvs)

theorem evalKeywords_append_error {before : List (Option String × Node)}
    (hbefore : (evalKeywords c limit before).run i = (.ok values, j))
    (h : (eval c limit node).run j = (.error e, k)) (arg : String)
    (after : List (Option String × Node)) :
    (evalKeywords c limit (before ++ (some arg, node) :: after)).run i = (.error e, k) := by
  induction before generalizing i values with
  | nil =>
    cases hbefore
    rw [List.nil_append, evalKeywords]
    exact Counted.run_bind_of_error h
  | cons first before ih =>
    obtain ⟨name, value⟩ := first
    cases name with
    | none =>
      rw [evalKeywords] at hbefore
      rw [List.cons_append, evalKeywords]
      exact ih hbefore
    | some name =>
      rw [evalKeywords] at hbefore
      obtain ⟨v, i', hfirst, hrest⟩ := Counted.run_bind_eq_ok.mp hbefore
      obtain ⟨vs, j', hvs, hvalues⟩ := Counted.run_bind_eq_ok.mp hrest
      cases hvalues
      rw [List.cons_append, evalKeywords, Counted.run_bind_of_ok hfirst]
      exact Counted.run_bind_of_error (ih hvs)

theorem evalAnd_append_error (hbefore : (evalAnd c limit before).run i = (.ok (.bool true), j))
    (h : (eval c limit node).run j = (.error e, k)) (after : List Node) :
    (evalAnd c limit (before ++ node :: after)).run i = (.error e, k) := by
  induction before generalizing i with
  | nil =>
    cases hbefore
    rw [List.nil_append, evalAnd]
    exact Counted.run_bind_of_error h
  | cons first before ih =>
    rw [evalAnd] at hbefore
    obtain ⟨v, i', hfirst, hrest⟩ := Counted.run_bind_eq_ok.mp hbefore
    rw [List.cons_append, evalAnd, Counted.run_bind_of_ok hfirst]
    split at hrest
    next htruthy =>
      rw [if_pos htruthy]
      exact ih hrest
    next => cases hrest

theorem evalOr_append_error (hbefore : (evalOr c limit before).run i = (.ok (.bool false), j))
    (h : (eval c limit node).run j = (.error e, k)) (after : List Node) :
    (evalOr c limit (before ++ node :: after)).run i = (.error e, k) := by
  induction before generalizing i with
  | nil =>
    cases hbefore
    rw [List.nil_append, evalOr]
    exact Counted.run_bind_of_error h
  | cons first before ih =>
    rw [evalOr] at hbefore
    obtain ⟨v, i', hfirst, hrest⟩ := Counted.run_bind_eq_ok.mp hbefore
    rw [List.cons_append, evalOr, Counted.run_bind_of_ok hfirst]
    split at hrest
    next => cases hrest
    next htruthy =>
      rw [if_neg htruthy]
      exact ih hrest

theorem evalCompare_append_error {before : List (CmpOp × Node)}
    (hbefore : (evalCompare c limit left before).run i = (.ok (.bool true), j))
    (h : (eval c limit node).run j = (.error e, k)) (op : CmpOp) (after : List (CmpOp × Node)) :
    (evalCompare c limit left (before ++ (op, node) :: after)).run i = (.error e, k) := by
  induction before generalizing left i with
  | nil =>
    cases hbefore
    rw [List.nil_append, evalCompare]
    exact Counted.run_bind_of_error h
  | cons first before ih =>
    rw [evalCompare] at hbefore
    obtain ⟨v, i', hfirst, hrest⟩ := Counted.run_bind_eq_ok.mp hbefore
    obtain ⟨result, i'', hresult, hrest⟩ := Counted.run_bind_eq_ok.mp hrest
    rw [List.cons_append, evalCompare, Counted.run_bind_of_ok hfirst,
      Counted.run_bind_of_ok hresult]
    cases result with
    | true => exact ih hrest
    | false => cases hrest

end

/-! ## The order of evaluation -/

variable (c : EvaluationContext) (limit : Nat)

/-- Evaluating a node from a count comes to an operand, at the count behind it. -/
inductive Next : Node → Nat → Node → Nat → Prop where
  | unaryOp (h : i < limit) : Next (.unaryOp op operand) i operand (i + 1)
  | left (h : i < limit) : Next (.binOp left op right) i left (i + 1)
  | right (h : i < limit) (hleft : (eval c limit left).run (i + 1) = (.ok l, j)) :
      Next (.binOp left op right) i right j
  | and (h : i < limit)
      (hbefore : (evalAnd c limit before).run (i + 1) = (.ok (.bool true), j)) :
      Next (.boolOp .and (before ++ m :: after)) i m j
  | or (h : i < limit)
      (hbefore : (evalOr c limit before).run (i + 1) = (.ok (.bool false), j)) :
      Next (.boolOp .or (before ++ m :: after)) i m j
  | compared (h : i < limit) : Next (.compare left comparators) i left (i + 1)
  | comparator {before after : List (CmpOp × Node)} (h : i < limit)
      (hleft : (eval c limit left).run (i + 1) = (.ok l, k))
      (hbefore : (evalCompare c limit l before).run k = (.ok (.bool true), j)) :
      Next (.compare left (before ++ (op, m) :: after)) i m j
  | arg (h : i < limit) (hcallee : (callee c func).run (i + 1) = (.ok function, k))
      (hbefore : (evalAll c limit before).run k = (.ok values, j)) :
      Next (.call func (before ++ m :: after) keywords) i m j
  | keyword {before after : List (Option String × Node)} (h : i < limit)
      (hcallee : (callee c func).run (i + 1) = (.ok function, k))
      (hargs : (evalAll c limit args).run k = (.ok values, k'))
      (hbefore : (evalKeywords c limit before).run k' = (.ok kwargs, j)) :
      Next (.call func args (before ++ (some arg, m) :: after)) i m j
  | list (h : i < limit) (hbefore : (evalAll c limit before).run (i + 1) = (.ok values, j)) :
      Next (.list (before ++ m :: after)) i m j
  | tuple (h : i < limit) (hbefore : (evalAll c limit before).run (i + 1) = (.ok values, j)) :
      Next (.tuple (before ++ m :: after)) i m j

/-- Evaluating a node from a count comes to evaluating another from another. -/
inductive Reaches : Node → Nat → Node → Nat → Prop where
  | refl : Reaches n i n i
  | next (h : Next c limit n i m j) (hrest : Reaches m j m' j') : Reaches n i m' j'

variable {c limit}

theorem run_tick (h : i < limit) : (tick limit).run i = (.ok (), i + 1) :=
  Counted.run_tick_of_lt _ h

/-- What an operand raises, the node raises. -/
theorem Next.error (h : Next c limit n i m j) (he : (eval c limit m).run j = (.error e, k)) :
    (eval c limit n).run i = (.error e, k) := by
  cases h with
  | unaryOp h | left h | compared h =>
    rw [eval, Counted.run_bind_of_ok (run_tick h)]
    exact Counted.run_bind_of_error he
  | right h hleft =>
    rw [eval, Counted.run_bind_of_ok (run_tick h), Counted.run_bind_of_ok hleft]
    exact Counted.run_bind_of_error he
  | and h hbefore =>
    rw [eval, Counted.run_bind_of_ok (run_tick h)]
    exact evalAnd_append_error hbefore he _
  | or h hbefore =>
    rw [eval, Counted.run_bind_of_ok (run_tick h)]
    exact evalOr_append_error hbefore he _
  | comparator h hleft hbefore =>
    rw [eval, Counted.run_bind_of_ok (run_tick h), Counted.run_bind_of_ok hleft]
    exact evalCompare_append_error hbefore he _ _
  | arg h hcallee hbefore =>
    rw [eval, Counted.run_bind_of_ok (run_tick h), Counted.run_bind_of_ok hcallee]
    exact Counted.run_bind_of_error (evalAll_append_error hbefore he _)
  | keyword h hcallee hargs hbefore =>
    rw [eval, Counted.run_bind_of_ok (run_tick h), Counted.run_bind_of_ok hcallee,
      Counted.run_bind_of_ok hargs]
    exact Counted.run_bind_of_error (evalKeywords_append_error hbefore he _ _)
  | list h hbefore | tuple h hbefore =>
    rw [eval, Counted.run_bind_of_ok (run_tick h)]
    exact Counted.run_bind_of_error (evalAll_append_error hbefore he _)

theorem Reaches.error (h : Reaches c limit n i m j)
    (he : (eval c limit m).run j = (.error e, k)) : (eval c limit n).run i = (.error e, k) := by
  induction h with
  | refl => exact he
  | next h _ ih => exact h.error (ih he)

/-- A value of a sequence is the one of an operand, from where those before it ended. -/
theorem evalAll_mem (h : (evalAll c limit nodes).run i = (.ok values, k)) (hv : v ∈ values) :
    ∃ before node after vs j j', nodes = before ++ node :: after ∧
      (evalAll c limit before).run i = (.ok vs, j) ∧
      (eval c limit node).run j = (.ok v, j') := by
  induction nodes generalizing i values with
  | nil =>
    cases h
    cases hv
  | cons node nodes ih =>
    rw [evalAll] at h
    obtain ⟨v', j, hfirst, h⟩ := Counted.run_bind_eq_ok.mp h
    obtain ⟨vs, j', hrest, h⟩ := Counted.run_bind_eq_ok.mp h
    cases h
    rcases List.mem_cons.mp hv with rfl | hv
    · exact ⟨[], node, nodes, [], i, j, rfl, rfl, hfirst⟩
    · obtain ⟨before, m, after, ws, j₁, j₂, rfl, hbefore, hm⟩ := ih hrest hv
      refine ⟨node :: before, m, after, v' :: ws, j₁, j₂, rfl, ?_, hm⟩
      rw [evalAll, Counted.run_bind_of_ok hfirst, Counted.run_bind_of_ok hbefore]
      rfl

theorem Next.operand (h : Next c limit n i m j) : m ∈ n.operands := by
  cases h with
  | unaryOp | left | right | and | or | compared | comparator | list | tuple => simp [Node.operands]
  | arg | keyword => simp [Node.operands, List.filterMap_append]

theorem Reaches.trans (h : Reaches c limit n i m j) (h' : Reaches c limit m j m' j') :
    Reaches c limit n i m' j' := by
  induction h with
  | refl => exact h'
  | next hnext _ ih => exact .next hnext (ih h')

theorem Reaches.isIn (h : Reaches c limit n i m j) : m.In n := by
  induction h with
  | refl => exact .refl
  | next h _ ih => exact .operand h.operand ih

end Interpreter

end ComplyLayer
