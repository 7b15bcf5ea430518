import ComplyLayer.Api.Validation
import ComplyLayer.Engine.Evaluation
import ComplyLayer.Velocity.Window

/-!
# From a validated request to a decision

`api/handler.py`. What the clock, the random generator and the store return during one request is
an argument: the instant, the decision id, the fetched window or the exception the fetch raised,
and the tenant's policy and lists.
-/

namespace ComplyLayer

open Theory

/-- `hash_customer_ref`, a keyed hash of the reference under the salt. -/
abbrev HashCustomerRef := String → String → String

/-- What `_gather` hands on: the provider with its window, or `UnavailableVelocity` with the text
of the exception. -/
inductive Gathered where
  | window (window : Window)
  | unavailable (cause : String)

namespace Gathered

/-- `UnavailableVelocity._unavailable`. -/
def raiseUnavailable (cause : String) (_ : Nat) (_ : Filters) : Except Raised Int :=
  evaluationError (.velocityUnavailable cause)

def provider : Gathered → VelocityProvider
  | window w => w.provider
  | unavailable cause => ⟨raiseUnavailable cause, raiseUnavailable cause⟩

/-- `aggregate_facts`: none rather than wrong ones when the fetch failed. -/
def aggregateFacts : Gathered → List (String × Value)
  | window w => w.aggregates.asFacts w.now
  | unavailable _ => []

end Gathered

/-- What the decision path reads from the store for one tenant and one version. -/
structure StoreView where
  fallbackPolicy : Dict Severity String := ∅
  namedLists : Dict String (List Value) := ∅

/-- `build_facts`: the entire namespace a rule can see. -/
def buildFacts (transaction : Transaction) (velocity : Gathered)
    (lists : Dict String (List Value)) : Dict String Value :=
  (Dict.ofList
    [("amount_minor", .int transaction.amountMinor),
      ("currency", .str transaction.currency),
      ("transaction_type", .str transaction.transactionType),
      ("channel", .str transaction.channel)])
    |>.update transaction.customer.entries
    |>.update (transaction.destination.entries.map fun (k, v) => ("destination_" ++ k, v))
    |>.update (transaction.device.entries.map fun (k, v) => ("device_" ++ k, v))
    |>.update velocity.aggregateFacts
    |>.update (lists.entries.map fun (name, values) => (name, .tuple values))

/-- The names of `Aggregates.as_facts`. -/
def aggregateNames : List String :=
  ["lifetime_transaction_count", "lifetime_volume_minor", "average_transaction_minor",
    "prior_flag_count", "days_since_last_activity", "customer_known_days"]

theorem Gathered.nodup_aggregateFacts (velocity : Gathered) :
    (velocity.aggregateFacts.map Prod.fst).Nodup := by
  cases velocity with
  | window w =>
    rw [show (aggregateFacts (.window w)).map Prod.fst = aggregateNames from rfl]
    decide
  | unavailable cause => exact List.nodup_nil

theorem aggregateNames_ne_append (h : name ∈ aggregateNames)
    (hpre : pre.toList.take 2 = ['d', 'e']) (key : String) : name ≠ pre ++ key := by
  rintro rfl
  have hnames : ∀ name ∈ aggregateNames, name.toList.take 2 ≠ ['d', 'e'] := by decide
  refine hnames _ h ?_
  have hlength : 2 ≤ pre.toList.length := by
    have := congrArg List.length hpre
    rw [List.length_take] at this
    exact le_of_eq_of_le this.symm (min_le_right _ _)
  rw [String.toList_append, List.take_append_of_le_length hlength, hpre]

/-- A rule sees the aggregates under their names, unless a list has the name. -/
theorem get?_buildFacts_aggregate {transaction : Transaction} {velocity : Gathered}
    {lists : Dict String (List Value)} (hname : name ∈ aggregateNames)
    (hcustomer : name ∉ transaction.customer.keys) :
    (buildFacts transaction velocity lists).get? name =
      ((lists.get? name).map Value.tuple).or (Dict.find name velocity.aggregateFacts) := by
  have hpre (pre : String) (entries : List (String × Value))
      (h : pre.toList.take 2 = ['d', 'e']) :
      name ∉ (entries.map fun entry => (pre ++ entry.1, entry.2)).map Prod.fst := by
    intro hmem
    obtain ⟨entry, hentry, rfl⟩ := List.mem_map.mp hmem
    obtain ⟨e, -, rfl⟩ := List.mem_map.mp hentry
    exact aggregateNames_ne_append hname h e.1 rfl
  have hbase : name ∉ ["amount_minor", "currency", "transaction_type", "channel"] := by
    have hnames : ∀ name ∈ aggregateNames,
        name ∉ ["amount_minor", "currency", "transaction_type", "channel"] := by decide
    exact hnames name hname
  have hlists : Dict.find name (lists.map Value.tuple).entries =
      (lists.get? name).map Value.tuple := Dict.get?_map _ _ _
  refine (Dict.get?_update_of_nodup (lists.map Value.tuple).nodup name).trans ?_
  rw [hlists, Dict.get?_update_of_nodup velocity.nodup_aggregateFacts,
    Dict.get?_update_of_not_mem (hpre "device_" _ (by decide)),
    Dict.get?_update_of_not_mem (hpre "destination_" _ (by decide)),
    Dict.get?_update_of_not_mem hcustomer, Dict.ofList, Dict.get?_update_of_not_mem hbase,
    Dict.get?_empty, Option.or_none]

/-- `_serialisable`: tuples become lists. -/
def serialisable (facts : Dict String Value) : List (String × Value) :=
  facts.entries.map fun (key, value) =>
    match value with
    | .tuple xs => (key, .list xs)
    | _ => (key, value)

/-- The key starts with an underscore. -/
def isInternal (key : String) : Bool := key.toList.head? == some '_'

/-- `public_body`: strip the internal keys before the response goes out. -/
def publicBody (body : Dict String Value) : Dict String Value :=
  body.filterKeys fun key => !isInternal key

structure DecisionHandler where
  tenantId : String
  ruleset : RuleSet
  salt : String

namespace DecisionHandler

/-- The entry of a matched rule in the response. -/
def ruleEntry (rule : CompiledRule) : Value :=
  .dict
    [("id", .str rule.id),
      ("name", .str rule.name),
      ("severity", .str rule.severity.str),
      ("regulatory_reference", .str rule.regulatoryReference)]

/-- The stored entry of a rule that could not run. -/
def erroredEntry (result : RuleOutcome) : Value :=
  .dict [("id", .str result.rule.id), ("error", .str result.error)]

/-- `_evaluate`, after the gather. -/
def evaluate (py : Python) (handler : DecisionHandler) (store : StoreView)
    (transaction : Transaction) (velocity : Gathered) (now : Instant) :
    Except Raised (Decision × Dict String Value) := do
  let facts := buildFacts transaction velocity store.namedLists
  let context : EvaluationContext := ⟨facts, build py velocity.provider now⟩
  let decision ← handler.ruleset.decide py context store.fallbackPolicy maxSteps
  pure (decision, facts)

/-- The body `decide` makes of a decision. -/
def bodyOf (py : Python) (handler : DecisionHandler) (decision : Decision)
    (facts : Dict String Value) (now : Instant) (decisionId : String) : Dict String Value :=
  let body := Dict.ofList
    [("decision_id", .str decisionId),
      ("outcome", .str decision.outcome.str),
      ("reason", .str decision.reason),
      ("matched_rules", .list (decision.matchedRules.map ruleEntry)),
      ("evaluated_rules", .int decision.evaluatedRules),
      ("ruleset_version", .int handler.ruleset.version),
      ("degraded", .bool decision.degraded),
      ("decided_at", .str (py.isoformat now))]
  let body :=
    if decision.outcome = .block ∧ decision.customerMessage ≠ "" then
      body.set "customer_message" (.str decision.customerMessage)
    else body
  body
    |>.set "_shadow_matches" (.list (decision.shadowMatches.map fun rule => .str rule.id))
    |>.set "_errored_rules" (.list (decision.erroredRules.map erroredEntry))
    |>.set "_resolved_facts" (.dict (serialisable facts))

section
variable {py : Python} {handler : DecisionHandler} {decision : Decision}
  {facts : Dict String Value} {now : Instant} {decisionId : String}

@[simp] theorem bodyOf_reason :
    (handler.bodyOf py decision facts now decisionId).get? "reason" =
      some (.str decision.reason) := by
  unfold bodyOf
  split <;> rfl

@[simp] theorem bodyOf_matchedRules :
    (handler.bodyOf py decision facts now decisionId).get? "matched_rules" =
      some (.list (decision.matchedRules.map ruleEntry)) := by
  unfold bodyOf
  split <;> rfl

@[simp] theorem bodyOf_customerMessage :
    (handler.bodyOf py decision facts now decisionId).get? "customer_message" =
      if decision.outcome = .block ∧ decision.customerMessage ≠ "" then
        some (.str decision.customerMessage)
      else none := by
  unfold bodyOf
  split <;> rfl

end

def decide (py : Python) (handler : DecisionHandler) (store : StoreView)
    (transaction : Transaction) (velocity : Gathered) (now : Instant) (decisionId : String) :
    Except Raised (Dict String Value) := do
  let (decision, facts) ← handler.evaluate py store transaction velocity now
  pure (handler.bodyOf py decision facts now decisionId)

theorem decide_eq_ok_iff {py : Python} {handler : DecisionHandler} :
    handler.decide py store transaction velocity now decisionId = .ok body ↔
      ∃ decision, handler.ruleset.decide py
          ⟨buildFacts transaction velocity store.namedLists, build py velocity.provider now⟩
          store.fallbackPolicy maxSteps = .ok decision ∧
        body = handler.bodyOf py decision (buildFacts transaction velocity store.namedLists) now
          decisionId := by
  unfold decide evaluate
  dsimp only
  cases handler.ruleset.decide py
      ⟨buildFacts transaction velocity store.namedLists, build py velocity.provider now⟩
      store.fallbackPolicy maxSteps with
  | error e =>
    constructor
    · intro h
      cases h
    · rintro ⟨decision, hd, -⟩
      cases hd
  | ok decision =>
    constructor
    · intro h
      cases h
      exact ⟨decision, rfl, rfl⟩
    · rintro ⟨decision', hd, rfl⟩
      cases hd
      rfl

theorem decide_eq_ok {py : Python} {handler : DecisionHandler}
    (h : handler.decide py store transaction velocity now decisionId = .ok body) :
    ∃ c decision facts, handler.ruleset.decide py c store.fallbackPolicy maxSteps = .ok decision ∧
      body = handler.bodyOf py decision facts now decisionId := by
  obtain ⟨decision, hd, hbody⟩ := decide_eq_ok_iff.mp h
  exact ⟨_, decision, _, hd, hbody⟩

end DecisionHandler

theorem get?_publicBody (body : Dict String Value) (key : String) :
    (publicBody body).get? key = if isInternal key then none else body.get? key := by
  rw [publicBody, Dict.get?_filterKeys]
  cases isInternal key <;> rfl

end ComplyLayer
