import ComplyLayer.Backtest.Impact
import ComplyLayer.Verify.Outage
import ComplyLayer.Verify.Replay

/-!
# The confidence of a backtest

What a rule needs of history is every name in it, and so the names of the functions it calls, which
no decision stores as facts. The numbers are right where every decision that stored what the rule
reads has those names too, and the rule raises nothing else on it.
-/

namespace ComplyLayer

open Theory

/-- The expression reads the fact: a name that is not the callee of a call. -/
def Node.Reads (tree : Node) (id : String) : Prop := (Node.name id).In tree

def Node.Calls (tree : Node) (id : String) : Prop :=
  ∃ args keywords, (Node.call (.name id) args keywords).In tree

/-- Every fact the expression reads was stored with the decision. -/
def DecisionRow.Recorded (decision : DecisionRow) (tree : Node) : Prop :=
  ∀ id, tree.Reads id → id ∈ decision.facts.keys

open scoped Classical in
/-- The numbers, and how far they can be trusted, as they are. -/
structure Impact.IsRight (impact : Impact) (decisions : List DecisionRow)
    (functions : String → Option Function) (tree : Node) : Prop where
  skipped : impact.skipped = decisions.countP fun d => ¬ d.Recorded tree
  considered : impact.considered = decisions.countP fun d => d.Recorded tree
  matched : impact.matched =
    decisions.countP fun d => d.Recorded tree ∧ d.answer functions tree = .ok true
  errored : impact.errored = decisions.countP fun d =>
    d.Recorded tree ∧ ∃ e, d.answer functions tree = .error (.evaluation e)
  confidence : impact.confidence =
    if ∀ d ∈ decisions, d.Recorded tree then .exact
    else if ∀ d ∈ decisions, ¬ d.Recorded tree then .unavailable
    else .partly

/-- The rule ends on what is stored in a boolean or in `RuleEvaluationError`. -/
def DecisionRow.Ends (decision : DecisionRow) (functions : String → Option Function)
    (tree : Node) : Prop :=
  ∀ e, decision.answer functions tree ≠ .error (.escaped e)

section
variable {str : Int → String} {sampleLimit : Nat} {functions : String → Option Function}
  {tree : Node} {needed : Finset String}

open scoped Classical in
/-- What the loop adds to what it started from, for a needed set of names. -/
structure Impact.Counts (impact impact' : Impact) (decisions : List DecisionRow)
    (functions : String → Option Function) (tree : Node) (needed : Finset String) : Prop where
  skipped : impact'.skipped = impact.skipped + decisions.countP fun d => d.missing needed ≠ ∅
  considered : impact'.considered =
    impact.considered + decisions.countP fun d => d.missing needed = ∅
  matched : impact'.matched = impact.matched +
    decisions.countP fun d => d.missing needed = ∅ ∧ d.answer functions tree = .ok true
  errored : impact'.errored = impact.errored + decisions.countP fun d =>
    d.missing needed = ∅ ∧ ∃ e, d.answer functions tree = .error (.evaluation e)
  confidence : impact'.confidence = impact.confidence

theorem Impact.Counts.append (h : Impact.Counts i j ds functions tree needed)
    (h' : Impact.Counts j k ds' functions tree needed) :
    Impact.Counts i k (ds ++ ds') functions tree needed where
  skipped := by rw [h'.skipped, h.skipped, List.countP_append, Nat.add_assoc]
  considered := by rw [h'.considered, h.considered, List.countP_append, Nat.add_assoc]
  matched := by rw [h'.matched, h.matched, List.countP_append, Nat.add_assoc]
  errored := by rw [h'.errored, h.errored, List.countP_append, Nat.add_assoc]
  confidence := h'.confidence.trans h.confidence

/-- What a turn of the loop adds. -/
theorem Impact.counts_of_count {impact : Impact} {decision : DecisionRow}
    (h : impact.count str sampleLimit functions tree needed decision = .ok impact') :
    Impact.Counts impact impact' [decision] functions tree needed := by
  rw [Impact.count] at h
  by_cases hmissing : decision.missing needed = ∅
  · rw [if_neg (not_not.mpr hmissing)] at h
    cases hanswer : decision.answer functions tree with
    | ok b =>
      rw [hanswer] at h
      cases b with
      | true =>
        cases h
        constructor
        all_goals simp [hmissing, hanswer]
      | false =>
        cases h
        constructor
        all_goals simp [hmissing, hanswer]
    | error e =>
      rw [hanswer] at h
      cases e with
      | evaluation e =>
        cases h
        constructor
        all_goals simp [hmissing, hanswer]
      | escaped e => cases h
  · rw [if_pos hmissing] at h
    cases h
    constructor
    all_goals simp [hmissing]

/-- A turn raises where a decision that is not skipped ends in another exception. -/
theorem Impact.exists_count_iff (str : Int → String) (sampleLimit : Nat) (impact : Impact)
    (decision : DecisionRow) :
    (∃ impact', impact.count str sampleLimit functions tree needed decision = .ok impact') ↔
      (decision.missing needed = ∅ → decision.Ends functions tree) := by
  rw [Impact.count]
  by_cases hmissing : decision.missing needed = ∅
  · rw [if_neg (not_not.mpr hmissing), forall_prop_of_true hmissing, DecisionRow.Ends]
    cases decision.answer functions tree with
    | ok b => cases b <;> simp
    | error e => cases e <;> simp
  · rw [if_pos hmissing]
    exact iff_of_true ⟨_, rfl⟩ fun h => absurd h hmissing

theorem Impact.counts_of_loop {impact : Impact} {decisions : List DecisionRow}
    (h : decisions.foldlM (Impact.count str sampleLimit functions tree needed) impact =
      .ok impact') : Impact.Counts impact impact' decisions functions tree needed := by
  induction decisions generalizing impact with
  | nil =>
    cases h
    constructor
    all_goals simp
  | cons decision decisions ih =>
    rw [List.foldlM_cons] at h
    obtain ⟨next, hnext, hrest⟩ := bind_eq_ok.mp h
    exact (counts_of_count hnext).append (ih hrest)

theorem Impact.exists_loop_iff (str : Int → String) (sampleLimit : Nat) (impact : Impact)
    (decisions : List DecisionRow) :
    (∃ impact', decisions.foldlM (Impact.count str sampleLimit functions tree needed) impact =
        .ok impact') ↔
      ∀ d ∈ decisions, d.missing needed = ∅ → d.Ends functions tree := by
  induction decisions generalizing impact with
  | nil => exact iff_of_true ⟨impact, rfl⟩ (by simp)
  | cons decision decisions ih =>
    rw [List.forall_mem_cons, ← exists_count_iff str sampleLimit impact]
    constructor
    · rintro ⟨impact', h⟩
      rw [List.foldlM_cons] at h
      obtain ⟨next, hnext, hrest⟩ := bind_eq_ok.mp h
      exact ⟨⟨next, hnext⟩, (ih next).mp ⟨impact', hrest⟩⟩
    · rintro ⟨⟨next, hnext⟩, hrest⟩
      obtain ⟨impact', himpact⟩ := (ih next).mpr hrest
      refine ⟨impact', ?_⟩
      rw [List.foldlM_cons]
      exact bind_eq_ok.mpr ⟨next, hnext, himpact⟩

end

/-! ## What is needed and what is read -/

/-- What is below a validated node is evaluated, or is the name of the function it calls. -/
theorem operand_or_callee {py : Python} (h : RuleValidator.visit py n = .ok ())
    (hc : c ∈ n.children) :
    c ∈ n.operands ∨ ∃ name args keywords, n = .call (.name name) args keywords ∧ c = .name name := by
  cases n with
  | call func args keywords =>
    obtain ⟨spec, -, rfl, -, hnames, -⟩ := RuleValidator.visit_call_ok h
    rcases List.mem_cons.mp hc with rfl | hc
    · exact .inr ⟨_, _, _, rfl, rfl⟩
    · left
      rcases List.mem_append.mp hc with hargs | hkeywords
      · exact List.mem_append_left _ hargs
      · obtain ⟨keyword, hkeyword, rfl⟩ := List.mem_map.mp hkeywords
        obtain ⟨arg, -, harg⟩ := hnames keyword hkeyword
        refine List.mem_append_right _ (List.mem_filterMap.mpr ⟨keyword, hkeyword, ?_⟩)
        rw [harg]
        rfl
  | attributeOf | subscript | other => cases h
  | constant | name => cases hc
  | _ => exact .inl hc

/-- A name in a validated expression is read, or called. -/
theorem under_name_iff {py : Python} (n : Node) (h : RuleValidator.visit py n = .ok ())
    (id : String) : (Node.name id).Under n ↔ n.Reads id ∨ n.Calls id := by
  induction n using Node.induction with
  | h n ih =>
    constructor
    · intro hunder
      cases hunder with
      | refl => exact .inl .refl
      | child hc hunder =>
        have hbelow := (ih _ hc ((RuleValidator.visit_ok h).2 _ hc)).mp hunder
        rcases operand_or_callee h hc with hoperand | ⟨name, args, keywords, rfl, rfl⟩
        · rcases hbelow with hreads | ⟨args, keywords, hcalls⟩
          · exact .inl (.operand hoperand hreads)
          · exact .inr ⟨args, keywords, .operand hoperand hcalls⟩
        · rcases hbelow with hreads | ⟨args', keywords', hcalls⟩
          · cases hreads with
            | refl => exact .inr ⟨args, keywords, .refl⟩
            | operand hc _ => cases hc
          · cases hcalls with
            | operand hc _ => cases hc
    · rintro (hreads | ⟨args, keywords, hcalls⟩)
      · exact hreads.under
      · have hunder := hcalls.under
        clear hcalls ih h
        generalize hcall : Node.call (.name id) args keywords = m at hunder
        induction hunder with
        | refl =>
          subst hcall
          exact .child List.mem_cons_self .refl
        | child hc _ ih => exact .child hc (ih hcall)

theorem missing_eq_empty_iff {py : Python} {decision : DecisionRow}
    (h : RuleValidator.visit py tree = .ok ()) :
    decision.missing tree.names.toFinset = ∅ ↔
      decision.Recorded tree ∧ ∀ id, tree.Calls id → id ∈ decision.facts.keys := by
  rw [DecisionRow.missing, Finset.filter_eq_empty_iff]
  simp only [List.mem_toFinset, mem_names_iff, under_name_iff tree h, not_not]
  constructor
  · intro hall
    exact ⟨fun id hreads => hall (.inl hreads), fun id hcalls => hall (.inr hcalls)⟩
  · rintro ⟨hreads, hcalls⟩ id (hid | hid)
    · exact hreads id hid
    · exact hcalls id hid

theorem backtest_eq {py : Python} {str : Int → String} {functions : String → Option Function}
    (hsource : validateSource py expression = .ok tree) (decisions : List DecisionRow)
    (sampleLimit : Nat) : backtest py str expression decisions sampleLimit functions =
      (((decisions.foldlM (Impact.count str sampleLimit functions tree tree.names.toFinset) {}).mapError
        .raised).map Impact.rated) := by
  rw [backtest, requiredFacts, parse_of_validateSource hsource]
  rfl

theorem Impact.rated_counts (impact : Impact) : impact.rated.skipped = impact.skipped ∧
    impact.rated.considered = impact.considered ∧ impact.rated.matched = impact.matched ∧
    impact.rated.errored = impact.errored := by
  rw [Impact.rated]
  split
  · exact ⟨rfl, rfl, rfl, rfl⟩
  split
  · exact ⟨rfl, rfl, rfl, rfl⟩
  · exact ⟨rfl, rfl, rfl, rfl⟩

open scoped Classical in
/-- The numbers of the loop, where the decisions that are not skipped are those that stored what the
rule reads. -/
theorem isRight_of_counts {impact : Impact} {functions : String → Option Function}
    (h : Impact.Counts {} impact decisions functions tree needed)
    (hsame : ∀ d ∈ decisions, d.missing needed = ∅ ↔ d.Recorded tree) :
    impact.rated.IsRight decisions functions tree := by
  obtain ⟨hskipped, hconsidered, hmatched, herrored⟩ := impact.rated_counts
  have hs : impact.skipped = decisions.countP fun d => ¬ d.Recorded tree := by
    rw [h.skipped]
    refine (Nat.zero_add _).trans (List.countP_congr fun d hd => ?_)
    simp only [decide_eq_true_eq, ne_eq, hsame d hd]
  have hc : impact.considered = decisions.countP fun d => d.Recorded tree := by
    rw [h.considered]
    refine (Nat.zero_add _).trans (List.countP_congr fun d hd => ?_)
    simp only [decide_eq_true_eq, hsame d hd]
  refine ⟨hskipped.trans hs, hconsidered.trans hc, hmatched.trans ?_, herrored.trans ?_, ?_⟩
  · rw [h.matched]
    refine (Nat.zero_add _).trans (List.countP_congr fun d hd => ?_)
    simp only [decide_eq_true_eq, hsame d hd]
  · rw [h.errored]
    refine (Nat.zero_add _).trans (List.countP_congr fun d hd => ?_)
    simp only [decide_eq_true_eq, hsame d hd]
  · have hnone : impact.skipped = 0 ↔ ∀ d ∈ decisions, d.Recorded tree := by
      rw [hs, List.countP_eq_zero]
      simp only [decide_eq_true_eq, not_not]
    have hall : impact.considered = 0 ↔ ∀ d ∈ decisions, ¬ d.Recorded tree := by
      rw [hc, List.countP_eq_zero]
      simp only [decide_eq_true_eq]
    rw [Impact.rated]
    by_cases hexact : ∀ d ∈ decisions, d.Recorded tree
    · have hzero := not_not.mpr (hnone.mpr hexact)
      rw [if_neg fun h => hzero h.2, if_neg hzero, if_pos hexact]
      exact h.confidence
    · have hsome := mt hnone.mp hexact
      rw [if_neg hexact]
      by_cases hunavailable : ∀ d ∈ decisions, ¬ d.Recorded tree
      · rw [if_pos ⟨hall.mpr hunavailable, hsome⟩, if_pos hunavailable]
      · rw [if_neg fun h => hunavailable (hall.mp h.1), if_pos hsome, if_neg hunavailable]

/-- A backtest has the right numbers exactly where every decision that stored the facts the rule
reads has a fact under the name of each function it calls, and the rule raises nothing else on it. -/
theorem confidence_right_iff {py : Python} (hsource : validateSource py expression = .ok tree)
    (str : Int → String) (decisions : List DecisionRow) (sampleLimit : Nat)
    (functions : String → Option Function) :
    (∃ impact, backtest py str expression decisions sampleLimit functions = .ok impact ∧
      impact.IsRight decisions functions tree) ↔
      ∀ d ∈ decisions, d.Recorded tree →
        (∀ id, tree.Calls id → id ∈ d.facts.keys) ∧ d.Ends functions tree := by
  classical
  have hvisit := (validateSource_eq_ok hsource).1
  rw [backtest_eq hsource]
  constructor
  · rintro ⟨impact, himpact, hright⟩ d hd hrecorded
    cases hloop : decisions.foldlM
        (Impact.count str sampleLimit functions tree tree.names.toFinset) {} with
    | error e =>
      rw [hloop] at himpact
      cases himpact
    | ok counted =>
      rw [hloop] at himpact
      cases himpact
      have hcounts := Impact.counts_of_loop hloop
      have hends := (Impact.exists_loop_iff _ _ _ _).mp ⟨counted, hloop⟩
      -- one more decision is skipped for every one that lacks the name of a function
      have hskipped : decisions.countP (fun d => ¬ d.Recorded tree) =
          decisions.countP fun d => d.missing tree.names.toFinset ≠ ∅ := by
        rw [← hright.skipped, counted.rated_counts.1, hcounts.skipped]
        exact Nat.zero_add _
      have hmissing := (countP_eq_iff_of_imp fun d _ h => ?_).mp hskipped d hd
      · have hempty : d.missing tree.names.toFinset = ∅ := by
          by_contra hne
          exact absurd hrecorded (of_decide_eq_true (hmissing (decide_eq_true hne)))
        exact ⟨((missing_eq_empty_iff hvisit).mp hempty).2, hends d hd hempty⟩
      · refine decide_eq_true fun hempty => ?_
        exact absurd ((missing_eq_empty_iff hvisit).mp hempty).1 (of_decide_eq_true h)
  · intro h
    have hsame : ∀ d ∈ decisions, d.missing tree.names.toFinset = ∅ ↔ d.Recorded tree := by
      intro d hd
      rw [missing_eq_empty_iff hvisit]
      exact ⟨fun hboth => hboth.1, fun hrecorded => ⟨hrecorded, (h d hd hrecorded).1⟩⟩
    obtain ⟨counted, hloop⟩ := (Impact.exists_loop_iff str sampleLimit {} decisions).mpr
      fun d hd hempty => (h d hd ((hsame d hd).mp hempty)).2
    refine ⟨counted.rated, ?_, isRight_of_counts (Impact.counts_of_loop hloop) hsame⟩
    rw [hloop]
    rfl

/-- What was stored of a decision about an amount. -/
def historic : DecisionRow where
  id := "dec_1"
  decidedAt := 0
  tenantId := "tnt_1"
  idempotencyKey := "key_1"
  rulesetVersion := 1
  transactionRef := "txn_1"
  customerRefHash := "c_1"
  amountMinor := 700
  currency := "NGN"
  context := ∅
  resolvedFacts := .dict [("amount_minor", .int 700)]
  outcome := .str "allow"
  matchedRules := .list []
  shadowMatches := .list []
  reason := .str ""
  degraded := .bool false
  erroredRules := .list []
  latencyMs := .int 0

theorem confidence_right_plain : ∃ impact,
    backtest (.reading "amount_minor > 50" plainLimit) (fun _ => "") "amount_minor > 50" [historic] 20
      (fun _ => none) = .ok impact ∧ impact.IsRight [historic] (fun _ => none) plainLimit := by
  have hsource : validateSource (.reading "amount_minor > 50" plainLimit) "amount_minor > 50" =
      .ok plainLimit := rfl
  refine (confidence_right_iff hsource _ _ _ _).mpr ?_
  refine List.forall_mem_singleton.mpr fun _ => ⟨fun id hcalls => ?_, fun e he => ?_⟩
  · obtain ⟨args, keywords, h⟩ := hcalls
    cases h with
    | operand hc h =>
      rcases List.mem_cons.mp hc with rfl | hc
      · cases h with
        | operand hc _ => cases hc
      · cases List.mem_singleton.mp hc
        cases h with
        | operand hc _ => cases hc
  · have hanswer : historic.answer (fun _ => none) plainLimit = .ok true := rfl
    rw [hanswer] at he
    cases he

/-- A rule that calls a function is never tested: nobody stored a fact named `abs`. -/
theorem function_reported_missing : ∃ impact,
    backtest (.reading "abs(amount_minor) > 50" absLimit) (fun _ => "") "abs(amount_minor) > 50"
        [historic] 20 (build (.reading "" absLimit) (Gathered.unavailable "").provider ⟨0, 0⟩) =
      .ok impact ∧ impact.confidence = .unavailable ∧ impact.missingFacts = {"abs"} ∧
      ¬ impact.IsRight [historic]
        (build (.reading "" absLimit) (Gathered.unavailable "").provider ⟨0, 0⟩) absLimit := by
  refine ⟨{ confidence := .unavailable, skipped := 1, missingFacts := {"abs"} }, rfl, rfl, rfl,
    fun hright => ?_⟩
  have hrecorded : historic.Recorded absLimit := by
    intro id hreads
    cases hreads with
    | operand hc h =>
      rcases List.mem_cons.mp hc with rfl | hc
      · cases h with
        | operand hc h =>
          cases List.mem_singleton.mp hc
          cases h with
          | refl => decide
          | operand hc _ => cases hc
      · cases List.mem_singleton.mp hc
        cases h with
        | operand hc _ => cases hc
  have hall : ∀ d ∈ [historic], d.Recorded absLimit := List.forall_mem_singleton.mpr hrecorded
  have hconfidence := hright.confidence
  rw [if_pos hall] at hconfidence
  cases hconfidence

end ComplyLayer
