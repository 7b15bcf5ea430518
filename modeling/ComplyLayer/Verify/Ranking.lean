import ComplyLayer.Api.Reviews
import ComplyLayer.Backtest.Analytics
import ComplyLayer.Verify.Idempotency
import ComplyLayer.Verify.Replay

/-!
# What the ranking of the rules counts

After whatever interleaving of decision requests and reviews, `performance` over the decisions of a
tenant has one entry for each rule that fired, with the exact numbers, and the worst first.
-/

namespace ComplyLayer

open Theory

/-- A body that is not saved yet was made of a decision, and every row shows one. -/
structure World.Decided (py : Python) (requests : Nat → DecisionRequest) (w : World) : Prop where
  bodies : ∀ r body, w.progress r = .decided body →
    ∃ decision facts now decisionId latency, body =
      ((requests r).handler.bodyOf py decision facts now decisionId).set "latency_ms" latency
  rows : ∀ row ∈ w.db.decisions.rows, ∃ decision, row.Shows decision

/-- The decisions of a tenant with the status of their review. -/
def ReviewWorld.history (w : ReviewWorld) (tenantId : String) : List ReviewedDecision :=
  (w.rows tenantId).map fun row => ⟨row, w.status row⟩

/-- The ids of the rules that matched, decision by decision. -/
def firings (history : List ReviewedDecision) : List String :=
  history.flatMap fun decision => decision.row.matchedIds.getD []

def reviewedOnly (history : List ReviewedDecision) : List ReviewedDecision :=
  history.filter fun decision => decision.reviewStatus ≠ ""

def clearedOnly (history : List ReviewedDecision) : List ReviewedDecision :=
  history.filter fun decision => decision.reviewStatus = "cleared"

/-- The numbers of one rule. -/
structure RulePerformance.Counts (p : RulePerformance) (history : List ReviewedDecision) :
    Prop where
  fired : p.fired = (firings history).count p.ruleId
  reviewed : p.reviewed = (firings (reviewedOnly history)).count p.ruleId
  cleared : p.cleared = (firings (clearedOnly history)).count p.ruleId
  /-- A flag that was reviewed was cleared or confirmed. -/
  settled : (p.cleared : Int) + p.confirmed = p.reviewed
  within : p.cleared ≤ p.reviewed ∧ p.reviewed ≤ p.fired

/-- Each rule that fired once, every firing counted, the worst first. -/
structure Ranks (divide : Nat → Nat → ℚ) (history : List ReviewedDecision)
    (results : List RulePerformance) : Prop where
  once : (results.map (·.ruleId)).Nodup
  listed : ∀ ruleId, ruleId ∈ results.map (·.ruleId) ↔ ruleId ∈ firings history
  counts : ∀ p ∈ results, p.Counts history
  total : (results.map (·.fired)).sum = (firings history).length
  worstFirst : results.Pairwise fun p q =>
    (q.falsePositiveRate divide).getD 0 < (p.falsePositiveRate divide).getD 0 ∨
      (q.falsePositiveRate divide).getD 0 = (p.falsePositiveRate divide).getD 0 ∧ q.fired ≤ p.fired

/-! ## What is stored -/

section
variable {py : Python} {hash : HashCustomerRef} {requests : Nat → DecisionRequest} {w w' : World}

theorem World.Decided.advance (h : w.Decided py requests)
    (hp : ∀ body, p = .decided body → ∃ decision facts now decisionId latency, body =
      ((requests r).handler.bodyOf py decision facts now decisionId).set "latency_ms" latency) :
    (w.advance r p).Decided py requests where
  bodies i body hbody := by
    by_cases hi : i = r
    · subst hi
      rw [World.advance_progress_self] at hbody
      exact hp body hbody
    · rw [World.advance_progress_of_ne w p hi] at hbody
      exact h.bodies i body hbody
  rows := h.rows

theorem decided_step (h : w.Decided py requests)
    (hstep : decisionStep py hash requests w e = some w') : w'.Decided py requests := by
  obtain ⟨p, rfl, hp⟩ | ⟨body, db, hprogress, hrecord, rfl⟩ := decisionStep_moves hstep
  · refine h.advance fun body hbody => ?_
    obtain ⟨store, velocity, now, decisionId, made, latencyMs, hdecide, rfl⟩ := hp body hbody
    obtain ⟨-, decision, facts, -, rfl⟩ := DecisionHandler.decide_eq_ok hdecide
    exact ⟨decision, facts, now, decisionId, _, rfl⟩
  · obtain ⟨decision, facts, now, decisionId, latency, rfl⟩ := h.bodies e.request body hprogress
    obtain ⟨row, record, hrows, hinsert, -⟩ := DatabaseStore.save_eq_some_iff.mp hrecord
    have hsaved : World.Decided py requests { w with db := db } :=
      ⟨h.bodies, fun row' hrow' => by
        rw [(Table.insert?_eq_some_iff.mp hinsert).2, List.mem_append, List.mem_singleton] at hrow'
        obtain hrow' | rfl := hrow'
        · exact h.rows row' hrow'
        · exact ⟨decision, (shows_of_rowsOf hrows).1⟩⟩
    exact hsaved.advance nofun

theorem decided_review {w w' : ReviewWorld} (h : w.world.Decided py requests)
    (hstep : reviewStep py hash requests w e = some w') : w'.world.Decided py requests := by
  cases e with
  | decision step =>
    obtain ⟨world, hworld, rfl⟩ := Option.map_eq_some_iff.mp hstep
    exact decided_step h hworld
  | review credentials query id data =>
    unfold reviewStep at hstep
    dsimp only at hstep
    split at hstep
    · rename_i w'' hreview
      cases hstep
      rw [ReviewWorld.review, seq_eq_ok] at hreview
      obtain ⟨row, -, hreview⟩ := bind_eq_ok.mp hreview.2
      obtain ⟨columns, -, hreview⟩ := bind_eq_ok.mp hreview
      cases pure_eq_ok.mp hreview
      exact h
    · cases hstep
      exact h

theorem matchedIds_of_shows {row : DecisionRow} (h : row.Shows decision) :
    row.matchedIds = some (decision.matchedRules.map (·.id)) := by
  unfold DecisionRow.matchedIds
  rw [h.matchedRules]
  refine mapM_eq_some_iff.mpr ?_
  rw [List.forall₂_map_left_iff, List.forall₂_map_right_iff]
  exact List.forall₂_same.mpr fun rule _ => rfl

end

/-! ## The loops -/

theorem Tallies.foldl_count (status : String) (t : Tallies) (ids : List String) :
    ids.foldl (Tallies.count status) t =
      { fired := t.fired.bumpAll ids
        reviewed := if status = "" then t.reviewed else t.reviewed.bumpAll ids
        cleared := if status = "cleared" then t.cleared.bumpAll ids else t.cleared } := by
  induction ids generalizing t with
  | nil => simp [Dict.bumpAll]
  | cons id ids ih =>
    rw [List.foldl_cons, ih, Tallies.count]
    by_cases hnone : status = ""
    · subst hnone
      rfl
    · by_cases hcleared : status = "cleared"
      · subst hcleared
        rfl
      · simp [hnone, hcleared, Dict.bumpAll_cons]

theorem foldlM_turn {history : List ReviewedDecision}
    (h : ∀ decision ∈ history, ∃ ids, decision.row.matchedIds = some ids) (t : Tallies) :
    history.foldlM Tallies.turn t =
      some
        { fired := t.fired.bumpAll (firings history)
          reviewed := t.reviewed.bumpAll (firings (reviewedOnly history))
          cleared := t.cleared.bumpAll (firings (clearedOnly history)) } := by
  induction history generalizing t with
  | nil => rfl
  | cons decision history ih =>
    obtain ⟨⟨ids, hids⟩, hrest⟩ := List.forall_mem_cons.mp h
    have hfirings (rest : List ReviewedDecision) :
        firings (decision :: rest) = ids ++ firings rest := by
      rw [firings, List.flatMap_cons, hids]
      rfl
    have hreviewed : reviewedOnly (decision :: history) =
        if decision.reviewStatus = "" then reviewedOnly history
        else decision :: reviewedOnly history := by
      rw [reviewedOnly, List.filter_cons]
      by_cases hnone : decision.reviewStatus = "" <;> simp [hnone, reviewedOnly]
    have hcleared : clearedOnly (decision :: history) =
        if decision.reviewStatus = "cleared" then decision :: clearedOnly history
        else clearedOnly history := by
      rw [clearedOnly, List.filter_cons]
      by_cases hclear : decision.reviewStatus = "cleared" <;> simp [hclear, clearedOnly]
    rw [List.foldlM_cons, Tallies.turn, hids, Option.map_some, Tallies.foldl_count]
    refine (ih hrest _).trans ?_
    rw [hreviewed, hcleared, hfirings, Dict.bumpAll_append]
    by_cases hnone : decision.reviewStatus = ""
    · simp [hnone]
    · by_cases hclear : decision.reviewStatus = "cleared"
      · simp [hclear, hfirings, Dict.bumpAll_append]
      · simp [hnone, hclear, hfirings, Dict.bumpAll_append]

/-! ## The ranking -/

theorem firings_sublist {history history' : List ReviewedDecision} (h : history.Sublist history') :
    (firings history).Sublist (firings history') := by
  induction h with
  | slnil => exact .slnil
  | cons decision _ ih => exact ih.trans (List.sublist_append_right _ _)
  | cons_cons decision _ ih => exact (List.Sublist.refl _).append ih

theorem clearedOnly_sublist (history : List ReviewedDecision) :
    (clearedOnly history).Sublist (reviewedOnly history) := by
  have himp : clearedOnly history = clearedOnly (reviewedOnly history) := by
    rw [clearedOnly, clearedOnly, reviewedOnly, List.filter_filter]
    refine List.filter_congr fun decision _ => ?_
    by_cases hcleared : decision.reviewStatus = "cleared" <;> simp [hcleared]
  rw [himp]
  exact List.filter_sublist

theorem counts_entry {history : List ReviewedDecision} {t : Tallies} {names : Dict String String}
    (hfired : t.fired = (∅ : Dict String Nat).bumpAll (firings history))
    (hreviewed : t.reviewed = (∅ : Dict String Nat).bumpAll (firings (reviewedOnly history)))
    (hcleared : t.cleared = (∅ : Dict String Nat).bumpAll (firings (clearedOnly history)))
    {entry : String × Nat} (hentry : entry ∈ t.fired.entries) :
    (t.entry names entry).Counts history := by
  have hcount (ids : List String) :
      ((∅ : Dict String Nat).bumpAll ids).countOf entry.1 = ids.count entry.1 := by
    rw [Dict.countOf_bumpAll, Dict.countOf_empty, Nat.zero_add]
  have hnumber : entry.2 = (firings history).count entry.1 := by
    rw [← hcount, ← hfired, Dict.countOf_of_mem hentry]
  have hreviews : t.reviewed.countOf entry.1 = (firings (reviewedOnly history)).count entry.1 := by
    rw [hreviewed, hcount]
  have hclears : t.cleared.countOf entry.1 = (firings (clearedOnly history)).count entry.1 := by
    rw [hcleared, hcount]
  refine ⟨hnumber, hreviews, hclears, ?_, ?_, ?_⟩
  · exact add_sub_cancel _ _
  · change t.cleared.countOf entry.1 ≤ t.reviewed.countOf entry.1
    rw [hclears, hreviews]
    exact (firings_sublist (clearedOnly_sublist history)).count_le _
  · change t.reviewed.countOf entry.1 ≤ entry.2
    rw [hreviews, hnumber]
    exact (firings_sublist List.filter_sublist).count_le _

theorem ranks_of_matched (divide : Nat → Nat → ℚ) {history : List ReviewedDecision}
    (names : Dict String String)
    (h : ∀ decision ∈ history, ∃ ids, decision.row.matchedIds = some ids) :
    ∃ results, performance divide history names = some results ∧ Ranks divide history results := by
  let t : Tallies :=
    { fired := (∅ : Dict String Nat).bumpAll (firings history)
      reviewed := (∅ : Dict String Nat).bumpAll (firings (reviewedOnly history))
      cleared := (∅ : Dict String Nat).bumpAll (firings (clearedOnly history)) }
  have hresults : performance divide history names =
      some (sortBy (RulePerformance.sortKey divide) (t.fired.entries.map (t.entry names))) :=
    congrArg (Option.map _) (foldlM_turn h {})
  refine ⟨_, hresults, ?_⟩
  have hperm := perm_sortBy (RulePerformance.sortKey divide) (t.fired.entries.map (t.entry names))
  have hids : (t.fired.entries.map (t.entry names)).map (·.ruleId) = t.fired.keys := List.map_map
  have hnumbers : (t.fired.entries.map (t.entry names)).map (·.fired) = t.fired.values :=
    List.map_map
  constructor
  case once =>
    refine (hperm.map _).nodup_iff.mpr ?_
    rw [hids]
    exact t.fired.nodup
  case listed =>
    intro ruleId
    rw [(hperm.map _).mem_iff, hids, Dict.mem_keys_bumpAll]
    exact or_iff_right (by simp [Dict.keys, EmptyCollection.emptyCollection, Dict.empty])
  case counts =>
    intro p hp
    obtain ⟨entry, hentry, rfl⟩ := List.mem_map.mp (mem_sortBy.mp hp)
    exact counts_entry rfl rfl rfl hentry
  case total =>
    rw [(hperm.map _).sum_eq, hnumbers, Dict.sum_values_bumpAll]
    exact Nat.zero_add _
  case worstFirst =>
    refine (pairwise_sortBy _ _).imp fun {p q} hpq => ?_
    rw [RulePerformance.sortKey, RulePerformance.sortKey, Prod.Lex.toLex_le_toLex] at hpq
    obtain hlt | ⟨heq, hle⟩ := hpq
    · exact .inl (neg_lt_neg_iff.mp hlt)
    · exact .inr ⟨(neg_inj.mp heq).symm, by omega⟩

/-- **The ranking is exact.** After every run of decision requests and reviews it lists the rules
that fired on the decisions of a tenant, with how often each fired, was reviewed and was cleared. -/
theorem performance_ranks {py : Python} {hash : HashCustomerRef}
    {requests : Nat → DecisionRequest} {steps : List ReviewStep} {w : ReviewWorld}
    (hrun : run (reviewStep py hash requests) { world := ⟨{}, fun _ => .received⟩ } steps = some w)
    (divide : Nat → Nat → ℚ) (tenantId : String) (names : Dict String String) :
    ∃ results, performance divide (w.history tenantId) names = some results ∧
      Ranks divide (w.history tenantId) results := by
  have hstart : World.Decided py requests ⟨{}, fun _ => .received⟩ := by
    refine ⟨fun r body hbody => ?_, fun row hrow => ?_⟩
    · cases hbody
    · cases hrow
  have hdecided : w.world.Decided py requests :=
    run_invariant (fun u => u.world.Decided py requests) (fun _ _ _ hu => decided_review hu)
      hstart hrun
  refine ranks_of_matched divide names fun decision hdecision => ?_
  obtain ⟨row, hrow, rfl⟩ := List.mem_map.mp hdecision
  obtain ⟨d, hshows⟩ := hdecided.rows row (List.mem_filter.mp hrow).1
  exact ⟨_, matchedIds_of_shows hshows⟩

/-! One flagged decision, which an officer clears. -/

def clearingPython : Python := .reading "amount_minor > 50" plainLimit

def clearingSteps : List ReviewStep :=
  [.decision (.find 0),
    .decision (.evaluate 0 (.window { now := 0 }) {} ⟨0, 0⟩ "dec_1" 5),
    .decision (.save 0),
    .review ⟨"tnt_1", "key_1", "live", { id := "key_1", role := .complianceOfficer }⟩ ∅ "dec_1" ∅]

def clearingRun : Option ReviewWorld :=
  run (reviewStep clearingPython (fun ref _ => ref)
    fun _ => ⟨flaggingHandler plainLimit, replayTransaction, "key_1"⟩)
      { world := ⟨{}, fun _ => .received⟩ } clearingSteps

theorem performance_ranks_cleared : ∃ w results, clearingRun = some w ∧
    (w.history "tnt_1").map (·.reviewStatus) = ["cleared"] ∧
      performance (fun m n => (m : ℚ) / n) (w.history "tnt_1") ∅ = some results ∧
        Ranks (fun m n => (m : ℚ) / n) (w.history "tnt_1") results := by
  have hcleared : (clearingRun.map fun w => (w.history "tnt_1").map (·.reviewStatus)) =
      some ["cleared"] := by
    decide +kernel
  obtain ⟨w, hw, hstatus⟩ := Option.map_eq_some_iff.mp hcleared
  obtain ⟨results, hresults, hranks⟩ := performance_ranks hw _ "tnt_1" ∅
  exact ⟨w, results, hw, hstatus, hresults, hranks⟩

end ComplyLayer
