import ComplyLayer.Api.Handler
import ComplyLayer.Dsl.Reached
import ComplyLayer.Verify.ErrorChannel
import ComplyLayer.Verify.Sandbox

/-!
# A velocity outage

A decision is made with the window that was gathered, or with what stands in for it when that failed.
A rule that asks for neither window nor aggregates does the same with both. In the outage a rule that
comes to a velocity call, or to an aggregate that nothing else supplies, fails and is recorded, if
the call names its window: without it Python refuses the call before it is made.
-/

namespace ComplyLayer

open Theory Interpreter

def velocityNames : List String := ["velocity_count", "velocity_sum"]

/-- What the rules of a decision see. -/
def decisionContext (py : Python) (transaction : Transaction) (lists : Dict String (List Value))
    (now : Instant) (velocity : Gathered) : EvaluationContext :=
  ⟨buildFacts transaction velocity lists, build py velocity.provider now⟩

/-- The expression has a velocity call, or the name of an aggregate. -/
def CompiledRule.AsksForVelocity (rule : CompiledRule) : Prop :=
  (∃ name ∈ velocityNames, ∃ args keywords, (Node.call (.name name) args keywords).In rule.tree) ∨
    ∃ name ∈ aggregateNames, (Node.name name).In rule.tree

/-- Evaluating the rule makes a velocity call, with these keyword arguments. -/
def CompiledRule.MakesVelocityCall (rule : CompiledRule) (c : EvaluationContext) (limit : Nat)
    (kwargs : List (String × Value)) : Prop :=
  ∃ name ∈ velocityNames, ∃ args keywords i values j k,
    Reaches c limit rule.tree 0 (.call (.name name) args keywords) i ∧ i < limit ∧
      (evalAll c limit args).run (i + 1) = (.ok values, j) ∧
      (evalKeywords c limit keywords).run j = (.ok kwargs, k)

/-- Evaluating the rule reads an aggregate that nothing else supplies. -/
def CompiledRule.ReadsAggregate (rule : CompiledRule) (c : EvaluationContext) (limit : Nat)
    (transaction : Transaction) (lists : Dict String (List Value)) : Prop :=
  ∃ name ∈ aggregateNames, name ∉ transaction.customer.keys ∧ name ∉ lists.keys ∧
    ∃ i, Reaches c limit rule.tree 0 (.name name) i

/-- The outage changes nothing for the rules that do not ask for velocity, and fails those whose
evaluation does: they neither match nor fail to match. -/
structure StaysLocal (py : Python) (rules : List CompiledRule) (transaction : Transaction)
    (lists : Dict String (List Value)) (live outage : EvaluationContext) (limit : Nat) : Prop where
  unchanged : ∀ rule ∈ rules, ¬ rule.AsksForVelocity →
    evaluateOne py rule live limit = evaluateOne py rule outage limit
  degrades : ∀ rule ∈ rules, (∃ kwargs, rule.MakesVelocityCall outage limit kwargs) ∨
      rule.ReadsAggregate outage limit transaction lists →
    ∃ result, evaluateOne py rule outage limit = .ok result ∧ result.matched = false ∧
      result.errored = true

/-! ## Rules that do not ask -/

theorem get?_buildFacts_of_not_aggregate (transaction : Transaction)
    (lists : Dict String (List Value)) (h : name ∉ aggregateNames) (window : Window)
    (cause : String) : (buildFacts transaction (.window window) lists).get? name =
      (buildFacts transaction (.unavailable cause) lists).get? name := by
  have hwindow : name ∉ (Gathered.aggregateFacts (.window window)).map Prod.fst := h
  have hcause : name ∉ (Gathered.aggregateFacts (.unavailable cause)).map Prod.fst :=
    List.not_mem_nil
  have hlists : (((lists.map Value.tuple).entries).map Prod.fst).Nodup := (lists.map Value.tuple).nodup
  refine (Dict.get?_update_of_nodup hlists name).trans
    (Eq.trans ?_ (Dict.get?_update_of_nodup hlists name).symm)
  rw [Dict.get?_update_of_not_mem hwindow, Dict.get?_update_of_not_mem hcause]

theorem build_eq_of_not_velocity (py : Python) (velocity velocity' : VelocityProvider)
    (now : Instant) (h : name ∉ velocityNames) :
    build py velocity now name = build py velocity' now name := by
  rw [velocityNames, List.mem_cons, List.mem_singleton, not_or] at h
  obtain ⟨hcount, hsum⟩ := h
  unfold build
  split
  · exact absurd rfl hcount
  · exact absurd rfl hsum
  all_goals rfl

/-- Nothing but the aggregates and the velocity functions tells the two contexts apart. -/
theorem coupled_outage {py : Python} {transaction : Transaction} {lists : Dict String (List Value)}
    {now : Instant} (window : Window) (cause : String)
    (hname : ∀ name, n = .name name → name ∉ aggregateNames)
    (hcall : ∀ name args keywords, n = .call (.name name) args keywords → name ∉ velocityNames) :
    (sideBySide fun _ => False).Coupled
      (decisionContext py transaction lists now (.window window))
      (decisionContext py transaction lists now (.unavailable cause)) n := by
  cases n with
  | constant value => exact rfl
  | name id =>
    have hfacts := get?_buildFacts_of_not_aggregate transaction lists (hname id rfl) window cause
    change SideBySide _ Eq (readFact _ id) (readFact _ id)
    rw [readFact, readFact, decisionContext, decisionContext, hfacts]
    exact sideBySide_refl _
  | call func args keywords =>
    have hcallee : callee (decisionContext py transaction lists now (.window window)) func =
        callee (decisionContext py transaction lists now (.unavailable cause)) func := by
      cases func with
      | name id =>
        simp only [callee, decisionContext,
          build_eq_of_not_velocity py (Gathered.provider (.window window))
            (Gathered.provider (.unavailable cause)) now (hcall id args keywords rfl)]
      | _ => rfl
    change SideBySide _ (sideBySide _).Call (callee _ func) (callee _ func)
    rw [hcallee, ← bind_pure (callee _ func)]
    exact (sideBySide_refl _).bind fun f _ hf k =>
      .inr (.inl ⟨f, f, k, rfl, by rw [hf]; rfl, sideBySide_call f⟩)
  | _ => trivial

theorem evaluateOne_unchanged {py : Python} {rule : CompiledRule} {transaction : Transaction}
    {lists : Dict String (List Value)} {now : Instant} (h : ¬ rule.AsksForVelocity)
    (window : Window) (cause : String) (limit : Nat) :
    evaluateOne py rule (decisionContext py transaction lists now (.window window)) limit =
      evaluateOne py rule (decisionContext py transaction lists now (.unavailable cause)) limit := by
  obtain ⟨hcalls, hnames⟩ := not_or.mp h
  have hrun : SideBySide (fun _ => False) Eq
      (run (decisionContext py transaction lists now (.window window)) limit rule.tree)
      (run (decisionContext py transaction lists now (.unavailable cause)) limit rule.tree) := by
    refine run_related (sideBySide _) limit rule.tree fun m hm => coupled_outage window cause ?_ ?_
    · rintro name rfl hname
      exact hnames ⟨name, hname, hm⟩
    · rintro name args keywords rfl hname
      exact hcalls ⟨name, hname, args, keywords, hm⟩
  obtain ⟨_, _, hfalse, -⟩ | heq := hrun.run_eq 0
  · exact hfalse.elim
  · rw [evaluateOne, evaluateOne, heq]

/-! ## Rules that do -/

theorem Node.In.visit {py : Python} (h : Node.In m n) (hn : RuleValidator.visit py n = .ok ()) :
    RuleValidator.visit py m = .ok () := by
  induction h with
  | refl => exact hn
  | operand hc _ ih => exact ih ((RuleValidator.visit_ok hn).2 _ (mem_children_of_mem_operands hc))

section
variable {py : Python} {velocity : VelocityProvider} {now : Instant} {cause : String}

/-- A function that is made of the provider of an outage. -/
theorem build_velocity (hname : name ∈ velocityNames) :
    build py (Gathered.provider (.unavailable cause)) now name =
      some (velocityFunction (Gathered.raiseUnavailable cause)) := by
  rw [velocityNames, List.mem_cons, List.mem_singleton] at hname
  obtain rfl | rfl := hname
  · rfl
  · rfl

/-- In an outage, a velocity call with keywords that are among its own fails where it names its
window, and escapes where it does not. -/
theorem velocityFunction_unavailable (cause : String) {kwargs : Dict String Value}
    (hkeys : ∀ key ∈ kwargs.keys, key ∈ velocityKeywords) :
    ∃ e, velocityFunction (Gathered.raiseUnavailable cause) [] kwargs = .error e ∧
      (e.IsEvaluation ↔ (kwargs.get? "window").isSome) := by
  rw [velocityFunction, bindArguments_velocity hkeys]
  cases kwargs.get? "window" with
  | none => exact ⟨_, rfl, by simp⟩
  | some w =>
    cases hs : windowSeconds w with
    | error e =>
      refine ⟨e, ?_, iff_of_true (contained_windowSeconds w e hs) rfl⟩
      simp [hs, bind, Except.bind]
    | ok seconds =>
      refine ⟨.evaluation (.velocityUnavailable cause), ?_, iff_of_true trivial rfl⟩
      simp [hs, bind, Except.bind, Gathered.raiseUnavailable, evaluationError]

variable {rule : CompiledRule} {transaction : Transaction} {lists : Dict String (List Value)}

theorem run_error (he : (eval c limit body).run 0 = (.error e, k)) :
    (run c limit body).run 0 = (.error e, k) :=
  Counted.run_bind_of_error he

theorem positional_of_velocity : ∀ spec ∈ specs, spec.name ∈ velocityNames →
    spec.positional = 0 ∧ spec.keywords = velocityKeywords := by
  decide

/-- A velocity call that is made ends the rule, in the exception the claim allows exactly where it
has a window. -/
theorem run_of_velocityCall (hvalid : rule.Validated py)
    (h : rule.MakesVelocityCall (decisionContext py transaction lists now (.unavailable cause)) limit
      kwargs) :
    ∃ e k, (run (decisionContext py transaction lists now (.unavailable cause)) limit
        rule.tree).run 0 = (.error e, k) ∧
      (e.IsEvaluation ↔ ((Dict.ofList kwargs).get? "window").isSome) := by
  obtain ⟨source, hsource⟩ := hvalid
  obtain ⟨name, hname, args, keywords, i, values, j, k, hreaches, hi, hargs, hkeywords⟩ := h
  have hvisit := hreaches.isIn.visit (validateSource_eq_ok hsource).1
  obtain ⟨spec, hspec, hfunc, harity, hnames, -⟩ := RuleValidator.visit_call_ok hvisit
  cases hfunc
  obtain ⟨hpositional, hknown⟩ := positional_of_velocity spec hspec hname
  have hvalues : values = [] := by
    refine List.length_eq_zero_iff.mp ?_
    rw [evalAll_length hargs, harity, hpositional]
  rw [hknown] at hnames
  obtain ⟨e, he, hevaluation⟩ :=
    velocityFunction_unavailable cause (keys_subset hnames hkeywords)
  have hcallee : (callee (decisionContext py transaction lists now (.unavailable cause))
      (.name spec.name)).run (i + 1) =
        (.ok (velocityFunction (Gathered.raiseUnavailable cause)), i + 1) := by
    simp only [callee, decisionContext, build_velocity hname]
    rfl
  refine ⟨e, k, run_error (hreaches.error ?_), hevaluation⟩
  rw [eval, Counted.run_bind_of_ok (run_tick hi), Counted.run_bind_of_ok hcallee,
    Counted.run_bind_of_ok hargs, Counted.run_bind_of_ok hkeywords, hvalues, he]
  rfl

/-- A name that is no fact ends the rule. -/
theorem errs_of_reads_unknown (hunknown : c.facts.get? name = none)
    (h : Reaches c limit rule.tree 0 (.name name) i) : rule.Errs c limit := by
  by_cases hi : i < limit
  · refine ⟨.unknownFact name, i + 1, run_error (h.error ?_)⟩
    rw [eval_name, readFact, hunknown, Counted.run_bind_of_ok (run_tick hi)]
    rfl
  · refine ⟨.stepBudgetExceeded limit, i + 1, run_error (h.error ?_)⟩
    rw [eval_name]
    exact Counted.run_bind_of_error (Counted.run_tick_of_le _ (not_lt.mp hi))

theorem errs_of_readsAggregate
    (h : rule.ReadsAggregate (decisionContext py transaction lists now (.unavailable cause)) limit
      transaction lists) :
    rule.Errs (decisionContext py transaction lists now (.unavailable cause)) limit := by
  obtain ⟨name, hname, hcustomer, hlists, i, hreaches⟩ := h
  refine errs_of_reads_unknown ?_ hreaches
  refine (get?_buildFacts_aggregate hname hcustomer).trans ?_
  have hnone : lists.get? name = none := Dict.find_eq_none_of_not_mem hlists
  rw [hnone]
  rfl

theorem evaluateOne_errs_iff : rule.Errs c limit ↔ ∃ result,
    evaluateOne py rule c limit = .ok result ∧ result.matched = false ∧ result.errored = true := by
  constructor
  · rintro ⟨e, k, hrun⟩
    refine ⟨⟨rule, false, e.reason py, k⟩, ?_, rfl, bne_iff_ne.mpr (e.reason_ne_empty py)⟩
    rw [evaluateOne, hrun]
  · rintro ⟨result, hresult, -, herrored⟩
    obtain ⟨rfl, hreports⟩ := evaluateOne_spec hresult
    exact hreports.errored_iff.mp herrored

end

/-- An outage of velocity stays local exactly where every velocity call that a rule makes in it
names its window. -/
theorem stays_local_iff {py : Python} {rules : List CompiledRule}
    (hvalid : ∀ rule ∈ rules, rule.Validated py) (transaction : Transaction)
    (lists : Dict String (List Value)) (window : Window) (cause : String) (now : Instant)
    (limit : Nat) :
    StaysLocal py rules transaction lists
        (decisionContext py transaction lists now (.window window))
        (decisionContext py transaction lists now (.unavailable cause)) limit ↔
      ∀ rule ∈ rules, ∀ kwargs,
        rule.MakesVelocityCall (decisionContext py transaction lists now (.unavailable cause)) limit
          kwargs → ((Dict.ofList kwargs).get? "window").isSome := by
  constructor
  · intro h rule hrule kwargs hcall
    obtain ⟨e, k, hrun, hevaluation⟩ := run_of_velocityCall (hvalid rule hrule) hcall
    obtain ⟨e', k', hrun'⟩ := evaluateOne_errs_iff.mpr (h.degrades rule hrule (.inl ⟨kwargs, hcall⟩))
    cases hrun.symm.trans hrun'
    exact hevaluation.mp trivial
  · intro h
    refine ⟨fun rule _ hasks => evaluateOne_unchanged hasks window cause limit,
      fun rule hrule hdegrades => evaluateOne_errs_iff.mp ?_⟩
    rcases hdegrades with ⟨kwargs, hcall⟩ | hreads
    · obtain ⟨e, k, hrun, hevaluation⟩ := run_of_velocityCall (hvalid rule hrule) hcall
      have he := hevaluation.mpr (h rule hrule kwargs hcall)
      cases e with
      | evaluation e => exact ⟨e, k, hrun⟩
      | escaped e => exact absurd he (Raised.not_isEvaluation_escaped e)
    · exact errs_of_readsAggregate hreads

/-- A rule on the number of transactions in an hour, with its keywords. -/
def hourlyCount (keywords : List (Option String × Node)) : CompiledRule where
  id := "rul_1"
  name := "busy hour"
  tree := .compare (.call (.name "velocity_count") [] keywords) [(.gt, .constant (.int 3))]
  severity := .block

def hourlyWindow : List (Option String × Node) := [(some "window", .constant (.str "1h"))]

/-- A transfer of nobody's. -/
def bareTransfer : Transaction where
  transactionRef := "txn_1"
  amountMinor := 100
  currency := "NGN"
  transactionType := "transfer"
  channel := ""
  customerRef := "cust_1"

/-- There is one call in the rule. -/
theorem in_hourlyCount
    (h : Node.In (.call (.name name) args keywords) (hourlyCount hourlyWindow).tree) :
    keywords = hourlyWindow := by
  cases h with
  | operand hc h =>
    rcases List.mem_cons.mp hc with rfl | hc
    · cases h with
      | refl => rfl
      | operand hc h =>
        cases List.mem_singleton.mp hc
        cases h with
        | operand hc _ => cases hc
    · cases List.mem_singleton.mp hc
      cases h with
      | operand hc _ => cases hc

/-- A runtime that reads a text as the tree of such a rule. -/
def readingHourly (source : String) (keywords : List (Option String × Node)) : Python :=
  .reading source (hourlyCount keywords).tree

/-- What such a rule sees in an outage, of a transfer at midnight. -/
def hourlyOutage (source : String) (keywords : List (Option String × Node)) : EvaluationContext :=
  decisionContext (readingHourly source keywords) bareTransfer ∅ ⟨0, 0⟩ (.unavailable "timeout")

theorem stays_local_hourly :
    StaysLocal (readingHourly "velocity_count(window='1h') > 3" hourlyWindow)
      [hourlyCount hourlyWindow] bareTransfer ∅
      (decisionContext (readingHourly "velocity_count(window='1h') > 3" hourlyWindow) bareTransfer ∅
        ⟨0, 0⟩ (.window { now := 0 }))
      (hourlyOutage "velocity_count(window='1h') > 3" hourlyWindow) maxSteps := by
  have hvalid : ∀ rule ∈ [hourlyCount hourlyWindow],
      rule.Validated (readingHourly "velocity_count(window='1h') > 3" hourlyWindow) :=
    List.forall_mem_singleton.mpr ⟨"velocity_count(window='1h') > 3", rfl⟩
  refine (stays_local_iff hvalid bareTransfer ∅ { now := 0 } "timeout" ⟨0, 0⟩ maxSteps).mpr ?_
  refine List.forall_mem_singleton.mpr fun kwargs hcall => ?_
  obtain ⟨name, -, args, keywords, i, values, j, k, hreaches, -, -, hkeywords⟩ := hcall
  rw [in_hourlyCount hreaches.isIn, hourlyWindow, evalKeywords, eval] at hkeywords
  obtain ⟨v, j', hv, hrest⟩ := Counted.run_bind_eq_ok.mp hkeywords
  obtain ⟨vs, k', hvs, hkwargs⟩ := Counted.run_bind_eq_ok.mp hrest
  cases hvs
  cases hkwargs
  rfl

/-- Without a window Python refuses the call, and the decision raises. -/
theorem windowless_call_escapes :
    ¬ StaysLocal (readingHourly "velocity_count() > 3" []) [hourlyCount []] bareTransfer ∅
      (decisionContext (readingHourly "velocity_count() > 3" []) bareTransfer ∅ ⟨0, 0⟩
        (.window { now := 0 }))
      (hourlyOutage "velocity_count() > 3" []) maxSteps := by
  intro h
  have hvalid : (hourlyCount []).Validated (readingHourly "velocity_count() > 3" []) :=
    ⟨"velocity_count() > 3", rfl⟩
  have hcall : (hourlyCount []).MakesVelocityCall (hourlyOutage "velocity_count() > 3" []) maxSteps
      [] :=
    ⟨"velocity_count", by decide, [], [], 1, [], 2, 2, .next (.compared (by decide)) .refl,
      by decide, by rw [evalAll]; rfl, by rw [evalKeywords]; rfl⟩
  obtain ⟨e, k, hrun, hevaluation⟩ := run_of_velocityCall hvalid hcall
  obtain ⟨e', k', hrun'⟩ := evaluateOne_errs_iff.mpr
    (h.degrades _ (List.mem_singleton_self _) (.inl ⟨[], hcall⟩))
  cases hrun.symm.trans hrun'
  exact absurd (hevaluation.mp trivial) (by decide)

end ComplyLayer
