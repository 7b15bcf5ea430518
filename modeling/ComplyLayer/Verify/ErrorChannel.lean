import ComplyLayer.Engine.Results
import ComplyLayer.Theory.Outcomes
import ComplyLayer.Velocity.Window

/-!
# The error channel of an evaluation

Evaluating a validated tree can end in three ways: a value, a `RuleEvaluationError`, or an
exception of Python's own. `Sound` follows the evaluation and asks of each membership test and each
call it reaches that its operands have types Python accepts; it is exactly the condition under
which the third ending does not happen (`confined_eval_iff`), for one tree and for a rule set.
-/

namespace ComplyLayer

open Theory Counted

/-- Every exception the outcome can be is a `RuleEvaluationError`. -/
def Contained (r : Except Raised α) : Prop := ∀ e, r = .error e → e.IsEvaluation

@[simp] theorem contained_ok (a : α) : Contained (.ok a) := fun _ h => nomatch h

@[simp] theorem contained_evaluationError (e : RuleEvaluationError) :
    Contained (evaluationError e : Except Raised α) := by
  rintro _ ⟨⟩
  trivial

@[simp] theorem not_contained_typeError : ¬ Contained (typeError : Except Raised α) :=
  fun h => h _ rfl

theorem contained_map {r : Except Raised α} {f : α → β} :
    Contained (r >>= fun a => pure (f a)) ↔ Contained r := by
  cases r with
  | ok a => simp [bind, Except.bind, pure, Except.pure]
  | error e => simp [Contained, bind, Except.bind]

/-! ## The window loop -/

namespace Window

/-- The loop raises nothing but `TypeError`, so it is contained exactly when it completes. -/
theorem contained_matching_iff (window : Window) (seconds : Nat) (filters : Filters) :
    Contained (window.matching seconds filters) ↔
      ∀ entry ∈ window.entries, EntryComparable (window.now - seconds) filters entry := by
  unfold matching
  rw [← matchingFrom_ok_iff]
  cases h : matchingFrom (window.now - seconds) filters window.entries with
  | ok amounts => simp
  | error e =>
    cases matchingFrom_error h
    simp [Contained]

end Window

/-! ## Calls -/

/-- The filters a velocity call's keywords give. -/
def filtersOf (kwargs : Dict String Value) : Filters where
  minAmountMinor := (kwargs.get? "min_amount_minor").getD .none
  maxAmountMinor := (kwargs.get? "max_amount_minor").getD .none
  transactionType := (kwargs.get? "transaction_type").getD .none

/-- A velocity call names a window, and if that window is supported, its filters compare with
every entry the window loop compares them with. -/
def VelocitySound (window : Window) (kwargs : Dict String Value) : Prop :=
  ∃ w, kwargs.get? "window" = some w ∧ ∀ seconds, windowSeconds w = .ok seconds →
    ∀ entry ∈ window.entries,
      Window.EntryComparable (window.now - seconds) (filtersOf kwargs) entry

/-- The operands of a call have types its implementation accepts. -/
def CallSound (window : Window) (name : String) (args : List Value)
    (kwargs : Dict String Value) : Prop :=
  (name = "velocity_count" ∨ name = "velocity_sum" → VelocitySound window kwargs) ∧
    (name = "in_list" → ∀ value candidates, args = [value, candidates] →
      candidates.isText → value.isText)

theorem bindArguments_velocity {kwargs : Dict String Value}
    (hkeys : ∀ k ∈ kwargs.keys, k ∈ velocityKeywords) :
    bindArguments velocityParams [] kwargs = (kwargs.get? "window").map fun w =>
      [w, (filtersOf kwargs).minAmountMinor, (filtersOf kwargs).maxAmountMinor,
        (filtersOf kwargs).transactionType] := by
  have hfree : ∀ k ∈ kwargs.keys, k ∈ (velocityParams.drop 0).map Prod.fst := hkeys
  rw [bindArguments, if_pos ⟨Nat.zero_le _, hfree⟩]
  cases hw : kwargs.get? "window" <;> cases hmin : kwargs.get? "min_amount_minor" <;>
    cases hmax : kwargs.get? "max_amount_minor" <;> cases hk : kwargs.get? "transaction_type" <;>
    simp [velocityParams, bindKeywords, filtersOf, hw, hmin, hmax, hk]

theorem contained_windowSeconds (w : Value) : Contained (windowSeconds w) := by
  unfold windowSeconds
  split
  · split <;> simp
  · simp

theorem contained_velocityFunction_iff {kwargs : Dict String Value} {window : Window}
    {method : Nat → Filters → Except Raised Int}
    (hkeys : ∀ k ∈ kwargs.keys, k ∈ velocityKeywords)
    (hmethod : ∀ seconds filters, Contained (method seconds filters) ↔
      ∀ entry ∈ window.entries, Window.EntryComparable (window.now - seconds) filters entry) :
    Contained (velocityFunction method [] kwargs) ↔ VelocitySound window kwargs := by
  unfold velocityFunction VelocitySound
  rw [bindArguments_velocity hkeys]
  cases hw : kwargs.get? "window" with
  | none => simp
  | some w =>
    simp only [Option.map_some, Option.some.injEq, exists_eq_left']
    cases hs : windowSeconds w with
    | error e =>
      have he : e.IsEvaluation := contained_windowSeconds w e hs
      simp [Contained, bind, Except.bind, he]
    | ok seconds =>
      simp only [Except.ok.injEq, forall_eq']
      exact contained_map.trans (hmethod seconds _)

theorem contained_wholeNumber (value : Value) (label : String) :
    Contained (wholeNumber value label) := by
  unfold wholeNumber
  split <;> simp

theorem contained_bind {r : Except Raised α} {f : α → Except Raised β} (hr : Contained r)
    (hf : ∀ a, Contained (f a)) : Contained (r >>= f) := by
  cases r with
  | ok a => exact hf a
  | error e =>
    rintro _ ⟨⟩
    exact hr e rfl

theorem contained_inList_iff (value candidates : Value) :
    Contained (inList [value, candidates] ∅) ↔ (candidates.isText → value.isText) := by
  have hbind : bindArguments [("value", none), ("candidates", none)] [value, candidates] ∅ =
      some [value, candidates] := rfl
  simp only [inList, hbind]
  by_cases hc : candidates.isContainer
  · rw [if_pos hc]
    cases hin : value.isIn? candidates with
    | some found =>
      have hne : ¬ (candidates.isText ∧ ¬ value.isText) := by
        rw [← Value.isIn?_eq_none_iff hc, hin]
        simp
      simpa using hne
    | none =>
      have h := (Value.isIn?_eq_none_iff hc).mp hin
      simp [h.1, h.2]
  · rw [if_neg hc]
    cases candidates <;> simp_all [Value.isContainer, Value.isText]

/-- A validated call: its function is declared, and its arguments fit the declaration. -/
structure CallFits (spec : FunctionSpec) (args : List Value) (kwargs : Dict String Value) :
    Prop where
  declared : spec ∈ specs
  arity : args.length = spec.positional
  keywords : ∀ k ∈ kwargs.keys, k ∈ spec.keywords

theorem CallFits.kwargs_empty (h : CallFits spec args kwargs) (hk : spec.keywords = []) :
    kwargs = ∅ := by
  have hkeys : kwargs.keys = [] := by
    refine List.eq_nil_iff_forall_not_mem.mpr fun k hmem => ?_
    have := h.keywords k hmem
    rw [hk] at this
    cases this
  exact Dict.ext (List.map_eq_nil_iff.mp hkeys)

/-- Every function the table binds contains its errors exactly on sound operands. -/
theorem build_contained_iff (py : Python) (window : Window) (now : Instant)
    (h : CallFits spec args kwargs) :
    ∃ function, build py window.provider now spec.name = some function ∧
      (Contained (function args kwargs) ↔ CallSound window spec.name args kwargs) := by
  have hargs := h.arity
  have hspec := h.declared
  simp only [specs, List.mem_cons, List.not_mem_nil, or_false] at hspec
  rcases hspec with rfl | rfl | rfl | rfl | rfl | rfl | rfl | rfl | rfl
  · cases List.length_eq_zero_iff.mp hargs
    refine ⟨_, rfl, ?_⟩
    rw [show CallSound window "velocity_count" [] kwargs ↔ VelocitySound window kwargs by
      simp [CallSound]]
    exact contained_velocityFunction_iff h.keywords fun seconds filters =>
      contained_map.trans (window.contained_matching_iff seconds filters)
  · cases List.length_eq_zero_iff.mp hargs
    refine ⟨_, rfl, ?_⟩
    rw [show CallSound window "velocity_sum" [] kwargs ↔ VelocitySound window kwargs by
      simp [CallSound]]
    exact contained_velocityFunction_iff h.keywords fun seconds filters =>
      contained_map.trans (window.contained_matching_iff seconds filters)
  · obtain ⟨timestamp, rfl⟩ := List.length_eq_one_iff.mp hargs
    cases h.kwargs_empty rfl
    refine ⟨_, rfl, iff_of_true ?_ (by simp [CallSound])⟩
    have hbind : bindArguments [("timestamp", none)] [timestamp] ∅ = some [timestamp] := rfl
    simp only [daysSince, hbind]
    cases timestamp <;> simp only [contained_ok, contained_evaluationError]
    split <;> simp
  · obtain ⟨value, candidates, rfl⟩ := List.length_eq_two.mp hargs
    cases h.kwargs_empty rfl
    refine ⟨_, rfl, (contained_inList_iff value candidates).trans ?_⟩
    simp [CallSound]
  · cases List.length_eq_zero_iff.mp hargs
    cases h.kwargs_empty rfl
    exact ⟨_, rfl, iff_of_true (contained_ok _) (by simp [CallSound])⟩
  · obtain ⟨value, rfl⟩ := List.length_eq_one_iff.mp hargs
    cases h.kwargs_empty rfl
    refine ⟨_, rfl, iff_of_true ?_ (by simp [CallSound])⟩
    exact contained_map.mpr (contained_wholeNumber value "value")
  all_goals
    obtain ⟨a, b, rfl⟩ := List.length_eq_two.mp hargs
    cases h.kwargs_empty rfl
    refine ⟨_, rfl, iff_of_true ?_ (by simp [CallSound])⟩
    exact contained_bind (contained_wholeNumber a _) fun _ =>
      contained_map.mpr (contained_wholeNumber b _)

theorem build_eq_some (py : Python) (velocity : VelocityProvider) (now : Instant)
    (h : spec ∈ specs) : ∃ function, build py velocity now spec.name = some function := by
  simp only [specs, List.mem_cons, List.not_mem_nil, or_false] at h
  rcases h with rfl | rfl | rfl | rfl | rfl | rfl | rfl | rfl | rfl <;> exact ⟨_, rfl⟩

namespace Interpreter

variable {c : EvaluationContext}

theorem evalAll_length (h : (evalAll c limit nodes).run n = (.ok values, k)) :
    values.length = nodes.length := by
  induction nodes generalizing n values with
  | nil => cases h; rfl
  | cons node rest ih =>
    rw [evalAll, run_bind_eq_ok] at h
    obtain ⟨v, j, -, h⟩ := h
    obtain ⟨vs, j', hrest, h⟩ := run_bind_eq_ok.mp h
    cases h
    rw [List.length_cons, List.length_cons, ih hrest]

/-- The keyword arguments of a call are among those its keywords name. -/
theorem evalKeywords_keys (h : (evalKeywords c limit keywords).run n = (.ok kwargs, k)) :
    ∀ p ∈ kwargs, ∃ node, (some p.1, node) ∈ keywords := by
  induction keywords generalizing n kwargs with
  | nil => cases h; simp
  | cons q rest ih =>
    obtain ⟨arg, node⟩ := q
    cases arg with
    | none =>
      rw [evalKeywords] at h
      intro p hp
      obtain ⟨node', hmem⟩ := ih h p hp
      exact ⟨node', List.mem_cons_of_mem _ hmem⟩
    | some arg =>
      rw [evalKeywords, run_bind_eq_ok] at h
      obtain ⟨v, j, -, h⟩ := h
      obtain ⟨vs, j', hrest, h⟩ := run_bind_eq_ok.mp h
      cases h
      intro p hp
      rcases List.mem_cons.mp hp with rfl | hp
      · exact ⟨node, List.mem_cons_self⟩
      · obtain ⟨node', hmem⟩ := ih hrest p hp
        exact ⟨node', List.mem_cons_of_mem _ hmem⟩

/-! ## Soundness of an evaluation -/

/-- A membership test in a text is for a text. -/
def CompareSound (op : CmpOp) (left right : Value) : Prop :=
  op = .in ∨ op = .notIn → right.isText → left.isText

mutual
/-- Every membership test and every call that evaluating the node from the count `n` reaches has
operands Python accepts. -/
def Sound (window : Window) (c : EvaluationContext) (limit : Nat) : Node → Nat → Prop
  | .boolOp .and values, n => n < limit → SoundAnd window c limit values (n + 1)
  | .boolOp .or values, n => n < limit → SoundOr window c limit values (n + 1)
  | .unaryOp _ operand, n => n < limit → Sound window c limit operand (n + 1)
  | .binOp left _ right, n => n < limit → Sound window c limit left (n + 1) ∧
      ∀ l k, (eval c limit left).run (n + 1) = (.ok l, k) → Sound window c limit right k
  | .compare left comparators, n => n < limit → Sound window c limit left (n + 1) ∧
      ∀ l k, (eval c limit left).run (n + 1) = (.ok l, k) → SoundCompare window c limit l comparators k
  | .call func args keywords, n => n < limit → SoundAll window c limit args (n + 1) ∧
      ∀ values k, (evalAll c limit args).run (n + 1) = (.ok values, k) →
        SoundKeywords window c limit keywords k ∧
          ∀ kwargs k', (evalKeywords c limit keywords).run k = (.ok kwargs, k') →
            ∀ id, func = .name id → CallSound window id values (Dict.ofList kwargs)
  | .list elts, n | .tuple elts, n => n < limit → SoundAll window c limit elts (n + 1)
  | _, _ => True

def SoundAll (window : Window) (c : EvaluationContext) (limit : Nat) : List Node → Nat → Prop
  | [], _ => True
  | node :: rest, n => Sound window c limit node n ∧
      ∀ value k, (eval c limit node).run n = (.ok value, k) → SoundAll window c limit rest k

def SoundKeywords (window : Window) (c : EvaluationContext) (limit : Nat) :
    List (Option String × Node) → Nat → Prop
  | [], _ => True
  | (none, _) :: rest, n => SoundKeywords window c limit rest n
  | (some _, node) :: rest, n => Sound window c limit node n ∧
      ∀ value k, (eval c limit node).run n = (.ok value, k) → SoundKeywords window c limit rest k

/-- Operands after a false one are not reached. -/
def SoundAnd (window : Window) (c : EvaluationContext) (limit : Nat) : List Node → Nat → Prop
  | [], _ => True
  | node :: rest, n => Sound window c limit node n ∧
      ∀ value k, (eval c limit node).run n = (.ok value, k) → value.truthy →
        SoundAnd window c limit rest k

/-- Operands after a true one are not reached. -/
def SoundOr (window : Window) (c : EvaluationContext) (limit : Nat) : List Node → Nat → Prop
  | [], _ => True
  | node :: rest, n => Sound window c limit node n ∧
      ∀ value k, (eval c limit node).run n = (.ok value, k) → ¬ value.truthy →
        SoundOr window c limit rest k

/-- Comparators after a false comparison are not reached. -/
def SoundCompare (window : Window) (c : EvaluationContext) (limit : Nat) (left : Value) :
    List (CmpOp × Node) → Nat → Prop
  | [], _ => True
  | (op, node) :: rest, n => Sound window c limit node n ∧
      ∀ right k, (eval c limit node).run n = (.ok right, k) → CompareSound op left right ∧
        ∀ k', (compareOne op left right).run k = (.ok true, k') →
          SoundCompare window c limit right rest k'
end

/-- An evaluation from the count `n` raises nothing but `RuleEvaluationError`. -/
abbrev Confined (x : Eval α) (n : Nat) : Prop := Safe Raised.IsEvaluation x n

theorem confined_tick_bind {f : Unit → Eval α} :
    Confined (Interpreter.tick limit >>= f) n ↔ (n < limit → Confined (f ()) (n + 1)) :=
  safe_tick_bind (Raised.isEvaluation_evaluation _) f n

theorem confined_bind {x : Eval α} {f : α → Eval β} :
    Confined (x >>= f) n ↔ Confined x n ∧ ∀ a k, x.run n = (.ok a, k) → Confined (f a) k :=
  safe_bind x f n

@[simp] theorem confined_pure (a : α) (n : Nat) : Confined (pure a : Eval α) n := safe_pure a n

@[simp] theorem confined_fail (e : RuleEvaluationError) (n : Nat) :
    Confined (fail e : Eval α) n :=
  (safe_raise _ n).mpr trivial

theorem confined_lift (r : Except Raised α) (n : Nat) :
    Confined (Counted.lift r) n ↔ Contained r :=
  safe_lift r n

theorem confined_binop (op : Operator) (l r : Value) (n : Nat) : Confined (binop op l r) n := by
  have harith (a b : Int) : Confined (arithmetic op a b) n := by
    unfold arithmetic guardedMultiply
    cases op <;> simp only <;> (try split) <;> simp
  have hguard (m : Int) (k : Nat) : Confined (guardMagnitude m) k := by
    unfold guardMagnitude
    split
    · exact confined_fail _ _
    · exact confined_pure _ _
  unfold binop
  split
  · exact confined_bind.mpr ⟨harith _ _, fun m k _ => hguard m k⟩
  · exact confined_fail _ _
  · exact confined_fail _ _

theorem confined_unaryop (op : UnaryOperator) (value : Value) (n : Nat) :
    Confined (unaryop op value) n := by
  unfold unaryop
  split
  · exact confined_pure _ _
  · split
    · exact confined_pure _ _
    · exact confined_fail _ _

theorem confined_ordered (l r : Value) (holds : Value → Value → Bool) (n : Nat) :
    Confined (compareOne.ordered l r holds) n := by
  unfold compareOne.ordered
  split
  · exact confined_pure _ _
  · exact confined_fail _ _

theorem confined_membership_iff (l r : Value) (polarity : Bool → Bool) (n : Nat) :
    Confined (compareOne.membership l r polarity) n ↔ (r.isText → l.isText) := by
  unfold compareOne.membership
  by_cases hr : r.isContainer
  · rw [if_pos hr]
    cases hin : l.isIn? r with
    | some contains =>
      have hne : ¬ (r.isText ∧ ¬ l.isText) := by
        rw [← Value.isIn?_eq_none_iff hr, hin]
        simp
      exact iff_of_true (confined_pure _ _) (by simpa using hne)
    | none =>
      have h := (Value.isIn?_eq_none_iff hr).mp hin
      exact iff_of_false (fun hs => hs _ n rfl) fun himp => h.2 (himp h.1)
  · rw [if_neg hr]
    refine iff_of_true (confined_fail _ _) fun ht => absurd ?_ hr
    cases r <;> simp_all [Value.isContainer, Value.isText]

theorem confined_compareOne_iff (op : CmpOp) (l r : Value) (n : Nat) :
    Confined (compareOne op l r) n ↔ CompareSound op l r := by
  cases op with
  | «in» => exact (confined_membership_iff l r id n).trans (by simp [CompareSound])
  | notIn => exact (confined_membership_iff l r Bool.not n).trans (by simp [CompareSound])
  | eq | notEq => exact iff_of_true (confined_pure _ _) (by simp [CompareSound])
  | lt | ltE | gt | gtE | is | isNot =>
    exact iff_of_true (confined_ordered l r _ n) (by simp [CompareSound])

section
variable {py : Python} {window : Window} {now : Instant}

/-- The callee of a validated call is in the table `build` makes. -/
theorem callee_eq (hc : c.functions = build py window.provider now) (h : spec ∈ specs) :
    ∃ function, callee c (.name spec.name) = pure function ∧
      ∀ {args kwargs}, CallFits spec args kwargs →
        (Contained (function args kwargs) ↔ CallSound window spec.name args kwargs) := by
  obtain ⟨function, hbuild⟩ := build_eq_some py window.provider now h
  refine ⟨function, by simp only [callee, hc, hbuild], fun hfits => ?_⟩
  obtain ⟨function', hbuild', hcontained⟩ := build_contained_iff py window now hfits
  cases hbuild.symm.trans hbuild'
  exact hcontained

theorem keys_subset {allowed : List String}
    (hnames : ∀ p ∈ keywords, ∃ arg ∈ allowed, p.1 = some arg)
    (h : (evalKeywords c limit keywords).run n = (.ok kwargs, k)) :
    ∀ key ∈ (Dict.ofList kwargs).keys, key ∈ allowed := by
  intro key hkey
  obtain ⟨⟨key', value⟩, hentry, rfl⟩ := List.mem_map.mp hkey
  have hmem : (key', value) ∈ kwargs :=
    Dict.mem_of_get?_ofList ((Dict.get?_eq_some_iff _).mpr hentry)
  obtain ⟨node, hnode⟩ := evalKeywords_keys h _ hmem
  obtain ⟨arg, harg, heq⟩ := hnames _ hnode
  cases heq
  exact harg

mutual
/-- **The error channel.** A validated tree, evaluated with the table `build` makes over a window,
raises nothing but `RuleEvaluationError` exactly when the operations it reaches are sound. -/
theorem confined_eval_iff (hc : c.functions = build py window.provider now) (limit : Nat) :
    (node : Node) → (n : Nat) → RuleValidator.visit py node = .ok () →
      (Confined (eval c limit node) n ↔ Sound window c limit node n)
  | .constant value, n, _ => by
    rw [eval, confined_tick_bind]
    simp [Sound]
  | .name id, n, _ => by
    rw [eval, confined_tick_bind]
    simp only [Sound, iff_true]
    intro _
    split
    · exact confined_pure _ _
    · exact confined_fail _ _
  | .boolOp .and values, n, h => by
    rw [eval, confined_tick_bind, Sound]
    rw [RuleValidator.visit, seq_eq_ok] at h
    simp only [confined_evalAnd_iff hc limit values (n + 1) h.2]
  | .boolOp .or values, n, h => by
    rw [eval, confined_tick_bind, Sound]
    rw [RuleValidator.visit, seq_eq_ok] at h
    simp only [confined_evalOr_iff hc limit values (n + 1) h.2]
  | .unaryOp op operand, n, h => by
    rw [eval, confined_tick_bind, Sound]
    rw [RuleValidator.visit, seq_eq_ok] at h
    rw [confined_bind, confined_eval_iff hc limit operand (n + 1) h.2]
    simp [confined_unaryop]
  | .binOp left op right, n, h => by
    rw [eval, confined_tick_bind, Sound]
    rw [RuleValidator.visit, seq_eq_ok, seq_eq_ok, seq_eq_ok] at h
    rw [confined_bind, confined_eval_iff hc limit left (n + 1) h.2.1]
    simp only [confined_bind, confined_eval_iff hc limit right _ h.2.2.2, confined_binop,
      implies_true, and_true]
  | .compare left comparators, n, h => by
    rw [eval, confined_tick_bind, Sound]
    rw [RuleValidator.visit, seq_eq_ok, seq_eq_ok] at h
    rw [confined_bind, confined_eval_iff hc limit left (n + 1) h.1]
    simp only [confined_evalCompare_iff hc limit _ comparators _ h.2.2]
  | .call func args keywords, n, h => by
    rw [eval, confined_tick_bind, Sound]
    obtain ⟨spec, hspec, rfl, harity, hnames, -, hargs, hkeywords⟩ :=
      RuleValidator.visit_call_ok h
    refine forall_congr' fun _ => ?_
    obtain ⟨function, hcallee, hfunction⟩ := callee_eq hc hspec
    rw [hcallee, pure_bind, confined_bind, confined_evalAll_iff hc limit args (n + 1) hargs]
    refine and_congr_right fun _ => forall₃_congr fun values k hvalues => ?_
    rw [confined_bind, confined_evalKeywords_iff hc limit keywords k hkeywords]
    refine and_congr_right fun _ => forall₃_congr fun kwargs k' hkwargs => ?_
    have hfits : CallFits spec values (Dict.ofList kwargs) :=
      ⟨hspec, (evalAll_length hvalues).trans harity, keys_subset hnames hkwargs⟩
    rw [confined_lift, hfunction hfits]
    simp
  | .list elts, n, h => by
    rw [eval, confined_tick_bind, Sound]
    rw [RuleValidator.visit] at h
    rw [confined_bind, confined_evalAll_iff hc limit elts (n + 1) h]
    simp
  | .tuple elts, n, h => by
    rw [eval, confined_tick_bind, Sound]
    rw [RuleValidator.visit] at h
    rw [confined_bind, confined_evalAll_iff hc limit elts (n + 1) h]
    simp

theorem confined_evalAll_iff (hc : c.functions = build py window.provider now) (limit : Nat) :
    (nodes : List Node) → (n : Nat) → RuleValidator.visitAll py nodes = .ok () →
      (Confined (evalAll c limit nodes) n ↔ SoundAll window c limit nodes n)
  | [], n, _ => by
    rw [evalAll]
    simp [SoundAll]
  | node :: rest, n, h => by
    rw [evalAll, SoundAll]
    rw [RuleValidator.visitAll, seq_eq_ok] at h
    rw [confined_bind, confined_eval_iff hc limit node n h.1]
    simp only [confined_bind, confined_evalAll_iff hc limit rest _ h.2, confined_pure, implies_true,
      and_true]

theorem confined_evalKeywords_iff (hc : c.functions = build py window.provider now)
    (limit : Nat) : (keywords : List (Option String × Node)) → (n : Nat) →
      RuleValidator.visitKeywords py keywords = .ok () →
      (Confined (evalKeywords c limit keywords) n ↔ SoundKeywords window c limit keywords n)
  | [], n, _ => by
    rw [evalKeywords]
    simp [SoundKeywords]
  | (none, _) :: rest, n, h => by
    rw [evalKeywords, SoundKeywords]
    rw [RuleValidator.visitKeywords, seq_eq_ok] at h
    exact confined_evalKeywords_iff hc limit rest n h.2
  | (some arg, node) :: rest, n, h => by
    rw [evalKeywords, SoundKeywords]
    rw [RuleValidator.visitKeywords, seq_eq_ok] at h
    rw [confined_bind, confined_eval_iff hc limit node n h.1]
    simp only [confined_bind, confined_evalKeywords_iff hc limit rest _ h.2, confined_pure, implies_true,
      and_true]

theorem confined_evalAnd_iff (hc : c.functions = build py window.provider now) (limit : Nat) :
    (nodes : List Node) → (n : Nat) → RuleValidator.visitAll py nodes = .ok () →
      (Confined (evalAnd c limit nodes) n ↔ SoundAnd window c limit nodes n)
  | [], n, _ => by
    rw [evalAnd]
    simp [SoundAnd]
  | node :: rest, n, h => by
    rw [evalAnd, SoundAnd]
    rw [RuleValidator.visitAll, seq_eq_ok] at h
    rw [confined_bind, confined_eval_iff hc limit node n h.1]
    refine and_congr_right fun _ => forall₃_congr fun value k _ => ?_
    by_cases ht : value.truthy
    · simp [ht, ← confined_evalAnd_iff hc limit rest k h.2]
    · simp [ht]

theorem confined_evalOr_iff (hc : c.functions = build py window.provider now) (limit : Nat) :
    (nodes : List Node) → (n : Nat) → RuleValidator.visitAll py nodes = .ok () →
      (Confined (evalOr c limit nodes) n ↔ SoundOr window c limit nodes n)
  | [], n, _ => by
    rw [evalOr]
    simp [SoundOr]
  | node :: rest, n, h => by
    rw [evalOr, SoundOr]
    rw [RuleValidator.visitAll, seq_eq_ok] at h
    rw [confined_bind, confined_eval_iff hc limit node n h.1]
    refine and_congr_right fun _ => forall₃_congr fun value k _ => ?_
    by_cases ht : value.truthy
    · simp [ht]
    · simp [ht, ← confined_evalOr_iff hc limit rest k h.2]

theorem confined_evalCompare_iff (hc : c.functions = build py window.provider now)
    (limit : Nat) (left : Value) : (comparators : List (CmpOp × Node)) → (n : Nat) →
      RuleValidator.visitComparators py comparators = .ok () →
      (Confined (evalCompare c limit left comparators) n ↔
        SoundCompare window c limit left comparators n)
  | [], n, _ => by
    rw [evalCompare]
    simp [SoundCompare]
  | (op, node) :: rest, n, h => by
    rw [evalCompare, SoundCompare]
    rw [RuleValidator.visitComparators, seq_eq_ok] at h
    rw [confined_bind, confined_eval_iff hc limit node n h.1]
    refine and_congr_right fun _ => forall₃_congr fun right k _ => ?_
    rw [confined_bind, confined_compareOne_iff]
    refine and_congr_right fun _ => ⟨fun hall k' heq => ?_, fun hall result k' heq => ?_⟩
    · exact (confined_evalCompare_iff hc limit right rest k' h.2).mp (hall true k' heq)
    · cases result with
      | true => exact (confined_evalCompare_iff hc limit right rest k' h.2).mpr (hall k' heq)
      | false => exact confined_pure _ _
end

theorem confined_run_iff (hc : c.functions = build py window.provider now) (limit : Nat)
    (h : RuleValidator.visit py node = .ok ()) :
    Confined (run c limit node) 0 ↔ Sound window c limit node 0 := by
  rw [run, confined_bind, confined_eval_iff hc limit node 0 h]
  simp

end

end Interpreter

/-! ## Rule sets -/

/-- The rule's tree is that of an accepted text. -/
def CompiledRule.Validated (py : Python) (rule : CompiledRule) : Prop :=
  ∃ source, validateSource py source = .ok rule.tree

theorem CompiledRule.ends_iff_confined {rule : CompiledRule} :
    rule.Ends c limit ↔ Interpreter.Confined (Interpreter.run c limit rule.tree) 0 := by
  constructor
  · rintro (⟨b, k, hrun⟩ | ⟨e, k, hrun⟩) e' k' herr
    · rw [hrun] at herr
      cases herr
    · rw [hrun] at herr
      cases herr
      trivial
  · intro h
    rcases h.ends with ⟨b, k, hrun⟩ | ⟨e, k, he, hrun⟩
    · exact .inl ⟨b, k, hrun⟩
    · cases e with
      | evaluation e => exact .inr ⟨e, k, hrun⟩
      | escaped e => exact absurd he (Raised.not_isEvaluation_escaped e)

/-- How a decision treats a rule that could not run: it is recorded, and an active one decides
when the effective policy for its severity is closed, and not otherwise. -/
structure Handled (fallback : Dict Severity String) (decision : Decision) (rule : CompiledRule) :
    Prop where
  recorded : ∃ r ∈ decision.erroredRules, r.rule = rule
  degraded : decision.degraded
  decides : rule.state = .active → (effectivePolicy fallback).get? rule.severity = some "closed" →
    ∃ r ∈ decision.matchedRules, r.id = rule.id
  policy : rule ∈ decision.matchedRules →
    rule.state = .active ∧ (effectivePolicy fallback).get? rule.severity = some "closed"

theorem RuleSet.decide_handles {py : Python} {ruleset : RuleSet}
    (h : ruleset.decide py c fallback limit = .ok decision)
    (hrule : rule ∈ ruleset.active ++ ruleset.shadow) (herr : rule.Errs c limit) :
    Handled fallback decision rule := by
  obtain ⟨live, shadow, hlive, hshadow, rfl⟩ := decide_spec h
  have hrecorded := (hlive.append hshadow).mem_errored_iff.mpr ⟨hrule, herr⟩
  obtain ⟨r, hr, rfl⟩ := List.mem_map.mp hrecorded
  refine ⟨⟨r, hr, rfl⟩, ?_, fun hstate hpolicy => ?_, fun hmem => ?_⟩
  · change (!((live ++ shadow).filter (·.errored)).isEmpty) = true
    cases hfilter : (live ++ shadow).filter (·.errored) with
    | nil => rw [hfilter] at hr; cases hr
    | cons _ _ => rfl
  · have hactive : r.rule ∈ ruleset.active := by
      rcases List.mem_append.mp hrule with h | h
      · exact h
      · exact mem_active_iff.mpr ⟨List.mem_of_mem_filter h, hstate⟩
    exact exists_mem_decidingOf hlive hactive (.inr ⟨herr, hpolicy⟩)
  · obtain ⟨hactive, hdecides⟩ := mem_of_mem_decidingOf hlive hmem
    refine ⟨(mem_active_iff.mp hactive).2, ?_⟩
    rcases hdecides with hmatches | ⟨-, hpolicy⟩
    · exact absurd hmatches herr.not_matches
    · exact hpolicy

/-- **The error channel of rule evaluation.** With the function table of a window and an instant,
running the tree of an accepted text ends in a boolean or in `RuleEvaluationError` exactly when
every membership test and call it reaches has operands of types Python accepts; and `decide` over
validated rules returns a decision, in which each rule that could not run is handled by its
severity's policy, exactly when that holds of every active and shadow rule. -/
theorem evaluation_confined_iff (py : Python) (window : Window) (now : Instant)
    (facts : Dict String Value) (limit : Nat) (fallback : Dict Severity String) :
    let c : EvaluationContext := ⟨facts, build py window.provider now⟩
    (∀ source body, validateSource py source = .ok body →
      (((∃ b k, (Interpreter.run c limit body).run 0 = (.ok b, k)) ∨
          ∃ e k, (Interpreter.run c limit body).run 0 = (.error (.evaluation e), k)) ↔
        Interpreter.Sound window c limit body 0)) ∧
    ∀ ruleset : RuleSet, (∀ rule ∈ ruleset.rules, rule.Validated py) →
      ((∃ decision, ruleset.decide py c fallback limit = .ok decision ∧
          ∀ rule ∈ ruleset.active ++ ruleset.shadow, rule.Errs c limit →
            Handled fallback decision rule) ↔
        ∀ rule ∈ ruleset.active ++ ruleset.shadow, Interpreter.Sound window c limit rule.tree 0) := by
  intro c
  have hends (rule : CompiledRule) (hv : rule.Validated py) :
      rule.Ends c limit ↔ Interpreter.Sound window c limit rule.tree 0 := by
    obtain ⟨source, hsource⟩ := hv
    rw [CompiledRule.ends_iff_confined]
    exact Interpreter.confined_run_iff rfl limit (validateSource_eq_ok hsource).1
  refine ⟨fun source body h => ?_, fun ruleset hvalid => ?_⟩
  · exact hends ⟨"", "", body, .block, .active, 0, "", ""⟩ ⟨source, h⟩
  · have hmem (rule) (h : rule ∈ ruleset.active ++ ruleset.shadow) : rule.Validated py :=
      hvalid rule ((List.mem_append.mp h).elim List.mem_of_mem_filter List.mem_of_mem_filter)
    constructor
    · rintro ⟨decision, hdecision, -⟩ rule hrule
      exact (hends rule (hmem rule hrule)).mp
        ((RuleSet.decide_isOk_iff py _ _).mp ⟨decision, hdecision⟩ rule hrule)
    · intro hsound
      obtain ⟨decision, hdecision⟩ :=
        (RuleSet.decide_isOk_iff py ruleset fallback).mpr fun rule hrule =>
          (hends rule (hmem rule hrule)).mpr (hsound rule hrule)
      exact ⟨decision, hdecision, fun rule hrule => RuleSet.decide_handles hdecision hrule⟩

def thresholdTree : Node := .compare (.name "amount_minor") [(.gt, .constant (.int 50))]

def thresholdPython : Python := .reading "amount_minor > 50" thresholdTree

def thresholdRule : CompiledRule :=
  { id := "r1", name := "Threshold", tree := thresholdTree, severity := .block }

def sampleFacts : Dict String Value :=
  Dict.ofList [("amount_minor", .int 100), ("currency", .str "NGN"),
    ("transaction_type", .str ""), ("channel", .str "")]

theorem evaluation_confined_threshold :
    ∃ decision, (RuleSet.ofRules 1 [thresholdRule]).decide thresholdPython
        ⟨sampleFacts, build thresholdPython (Window.mk 0 [] false {}).provider ⟨0, 0⟩⟩ ∅ maxSteps =
          .ok decision ∧
      ∀ rule ∈ [thresholdRule] ++ [], rule.Errs
          ⟨sampleFacts, build thresholdPython (Window.mk 0 [] false {}).provider ⟨0, 0⟩⟩ maxSteps →
        Handled ∅ decision rule := by
  have hvalid : ∀ rule ∈ (RuleSet.ofRules 1 [thresholdRule]).rules, rule.Validated thresholdPython := by
    intro rule hrule
    rw [List.mem_singleton.mp hrule]
    exact ⟨"amount_minor > 50", rfl⟩
  refine ((evaluation_confined_iff thresholdPython (Window.mk 0 [] false {}) ⟨0, 0⟩ sampleFacts
    maxSteps ∅).2 (RuleSet.ofRules 1 [thresholdRule]) hvalid).mpr fun rule hrule => ?_
  rw [show rule = thresholdRule from List.mem_singleton.mp hrule]
  simp [thresholdRule, thresholdTree, Interpreter.Sound, Interpreter.SoundCompare,
    Interpreter.CompareSound]

/-! A membership test in a text, of something that is not one. -/

def memberTree : Node := .compare (.name "amount_minor") [(.in, .name "currency")]

def memberPython : Python := .reading "amount_minor in currency" memberTree

def memberContext : EvaluationContext :=
  ⟨sampleFacts, build memberPython (Window.mk 0 [] false {}).provider ⟨0, 0⟩⟩

def memberRule : CompiledRule :=
  { id := "r1", name := "Member", tree := memberTree, severity := .block }

theorem member_escapes :
    validateSource memberPython "amount_minor in currency" = .ok memberTree ∧
      (Interpreter.run memberContext maxSteps memberTree).run 0 = (.error (.escaped .typeError), 3) ∧
      (RuleSet.ofRules 1 [memberRule]).decide memberPython memberContext ∅ maxSteps =
        .error (.escaped .typeError) :=
  ⟨rfl, rfl, rfl⟩

end ComplyLayer
