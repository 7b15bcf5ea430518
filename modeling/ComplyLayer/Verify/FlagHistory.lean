import ComplyLayer.Api.Decision
import ComplyLayer.Theory.Runs
import ComplyLayer.Verify.Dormancy

/-!
# How often a customer was flagged

The decision requests of one customer, over the tables and over Redis: an evaluation gathers from
Redis in the moment it evaluates. Nothing on this path writes `prior_flag_count` (`note_flagged`
has no caller), so the rules see no earlier flag, whatever is recorded.
-/

namespace ComplyLayer

open Theory Redis

/-- The tables and the requests in progress, and the Redis server. -/
structure DecisionPath where
  world : World
  redis : Server

/-- The provider of the middleware, for the customer of the request. -/
def DecisionRequest.velocity (hash : HashCustomerRef) (request : DecisionRequest) : RedisVelocity :=
  ⟨request.handler.tenantId, hash request.transaction.customerRef request.handler.salt⟩

/-- The fetch of a request. -/
def DecisionRequest.gather (py : Python) (hash : HashCustomerRef) (request : DecisionRequest)
    (redis : Server) (now : Instant) : Server × Gathered :=
  DecisionHandler.gather py (request.velocity hash) redis request.transaction now

inductive PathStep where
  | find (r : Nat)
  /-- Gather and evaluate. -/
  | evaluate (r : Nat) (store : StoreView) (now : Instant) (decisionId : String) (latencyMs : Int)
  | save (r : Nat)
  | answer (r : Nat)
  | abort (r : Nat)
  /-- Time passes on the Redis server. -/
  | wait (seconds : ℚ)

/-- One step of a request, or of the clock. -/
def pathStep (py : Python) (hash : HashCustomerRef) (requests : Nat → DecisionRequest)
    (s : DecisionPath) : PathStep → Option DecisionPath
  | .find r => (decisionStep py hash requests s.world (.find r)).map ({ s with world := · })
  | .evaluate r store now decisionId latencyMs =>
    let (redis, gathered) := (requests r).gather py hash s.redis now
    (decisionStep py hash requests s.world
      (.evaluate r gathered store now decisionId latencyMs)).map fun world => ⟨world, redis⟩
  | .save r => (decisionStep py hash requests s.world (.save r)).map ({ s with world := · })
  | .answer r => (decisionStep py hash requests s.world (.answer r)).map ({ s with world := · })
  | .abort r => (decisionStep py hash requests s.world (.abort r)).map ({ s with world := · })
  | .wait seconds => if 0 ≤ seconds then some { s with redis := s.redis.elapse seconds } else none

/-- The decision was recorded as a flag. -/
def DecisionRow.flagged (row : DecisionRow) : Bool :=
  match row.outcome with
  | .str outcome => outcome = Outcome.flag.str
  | _ => false

/-- The recorded decisions of a customer that were flags. -/
def flagsRecorded (velocity : RedisVelocity) (db : Database) : Nat :=
  db.decisions.rows.countP fun row =>
    row.tenantId = velocity.tenantId ∧ row.customerRefHash = velocity.customerHash ∧ row.flagged

section
variable (py : Python) (hash : HashCustomerRef) (requests : Nat → DecisionRequest)

/-- The rules of a decision see how many of the customer's recorded decisions were flags. -/
def SeesFlags (s : DecisionPath) : PathStep → Prop
  | .evaluate r store now _ _ =>
    (buildFacts (requests r).transaction ((requests r).gather py hash s.redis now).2
        store.namedLists).get? "prior_flag_count" =
      some (.int (flagsRecorded ((requests r).velocity hash) s.world.db))
  | _ => True

/-- No decision of the customer is recorded as a flag, no list has the name of the fact, and the
counters take the amount. -/
def NoFlagYet (s : DecisionPath) : PathStep → Prop
  | .evaluate r store _ _ _ =>
    flagsRecorded ((requests r).velocity hash) s.world.db = 0 ∧
    store.namedLists.get? "prior_flag_count" = none ∧
    ∀ fields, s.redis.hash? ((requests r).velocity hash).aggregatesKey = some fields →
      RedisVelocity.CountersTake fields ⟨(requests r).transaction.transactionRef,
        (requests r).transaction.amountMinor, (requests r).transaction.transactionType⟩
  | _ => True

end

section
variable {py : Python} {hash : HashCustomerRef} {requests : Nat → DecisionRequest}
  {velocity : RedisVelocity} {s t : DecisionPath}

/-- A gather is one more call that is remembered. -/
theorem Remembers.gather {server : Server} {done : List RecordCall}
    (h : Remembers py velocity server done) (transaction : Transaction) (now : Instant) :
    ∃ server' result, DecisionHandler.gather py velocity server transaction now =
        (server', .ofFetch result) ∧
      Remembers py velocity server' (done ++ [(Attempt.call { transaction, now })]) ∧
      Returns py done (Attempt.call { transaction, now }) result := by
  obtain ⟨server', result, hfetch, hremembers, -, hreturns, -⟩ :=
    h.record (Attempt.call { transaction, now })
  refine ⟨server', result, ?_, hremembers, hreturns⟩
  exact congrArg (fun fetched => (fetched.1, Gathered.ofFetch fetched.2)) hfetch

/-- What Redis remembers of the customer, it remembers through every step. -/
theorem pathStep_remembers (hcustomer : ∀ r, (requests r).velocity hash = velocity)
    (h : ∃ done, Remembers py velocity s.redis done)
    (hstep : pathStep py hash requests s a = some t) :
    ∃ done, Remembers py velocity t.redis done := by
  obtain ⟨done, h⟩ := h
  have hkept {w : Option World} (hstep : w.map ({ s with world := · }) = some t) :
      ∃ done, Remembers py velocity t.redis done := by
    obtain ⟨world, -, rfl⟩ := Option.map_eq_some_iff.mp hstep
    exact ⟨done, h⟩
  cases a with
  | find r => exact hkept hstep
  | save r => exact hkept hstep
  | answer r => exact hkept hstep
  | abort r => exact hkept hstep
  | evaluate r store now decisionId latencyMs =>
    obtain ⟨server', result, hgather, hremembers, -⟩ := h.gather (requests r).transaction now
    have hgather' : (requests r).gather py hash s.redis now = (server', .ofFetch result) := by
      rw [DecisionRequest.gather, hcustomer]
      exact hgather
    rw [pathStep, hgather'] at hstep
    obtain ⟨world, -, rfl⟩ := Option.map_eq_some_iff.mp hstep
    exact ⟨_, hremembers⟩
  | wait seconds =>
    rw [pathStep] at hstep
    split at hstep
    · cases hstep
      exact ⟨done, h.elapse ‹_›⟩
    · cases hstep

/-- Of one evaluation: the rules see zero, where the fetch returns and no list hides it. -/
theorem seesFlags_iff (hcustomer : ∀ r, (requests r).velocity hash = velocity)
    (hvalid : ∀ r, ∃ payload, parseTransaction py payload = .ok (requests r).transaction)
    (h : ∃ done, Remembers py velocity s.redis done) (a : PathStep) :
    SeesFlags py hash requests s a ↔ NoFlagYet hash requests s a := by
  cases a with
  | find r | save r | answer r | abort r | wait seconds => exact Iff.rfl
  | evaluate r store now decisionId latencyMs =>
    obtain ⟨done, h⟩ := h
    obtain ⟨payload, hpayload⟩ := hvalid r
    obtain ⟨server', result, hgather, -, hreturns⟩ := h.gather (requests r).transaction now
    have hgather' : (requests r).gather py hash s.redis now = (server', .ofFetch result) := by
      rw [DecisionRequest.gather, hcustomer]
      exact hgather
    have hunknown : "prior_flag_count" ∉ (requests r).transaction.customer.keys := fun hmem =>
      absurd ((parseTransaction_ok hpayload).2 _ hmem) (by decide)
    have hsees := seenFact_eq_int_iff (a := { transaction := (requests r).transaction, now, store })
      (.ofFetch result) (n := flagsRecorded velocity s.world.db) (by decide) hunknown
    have htake : (∀ fields, s.redis.hash? velocity.aggregatesKey = some fields →
        RedisVelocity.CountersTake fields ⟨(requests r).transaction.transactionRef,
          (requests r).transaction.amountMinor, (requests r).transaction.transactionType⟩) ↔
        RedisVelocity.CountersTake (aggregatesAfter py done)
          (Attempt.call { transaction := (requests r).transaction, now }).recorded := by
      rw [h.aggregates]
      exact ⟨fun htake => htake _ rfl, fun htake fields heq => Option.some.inj heq ▸ htake⟩
    simp only [SeesFlags, NoFlagYet, hgather', hcustomer]
    rw [htake]
    refine hsees.trans ?_
    by_cases hcounters : RedisVelocity.CountersTake (aggregatesAfter py done)
        (Attempt.call { transaction := (requests r).transaction, now }).recorded
    · obtain ⟨window, rfl⟩ : ∃ window, result = .ok window := by
        obtain ⟨scores, amounts, -, hwindow⟩ := hreturns.window hcounters
        exact ⟨_, hwindow⟩
      have hnone : window.aggregates.priorFlagCount = 0 := by
        rw [hreturns.window_eq.2]
        refine number_of_counter? ?_
        rw [get?_aggregatesAfter_of_ne py (by decide) (by decide) (by decide) (by decide)]
        rfl
      have hfind : Dict.find "prior_flag_count"
          (Gathered.ofFetch (.ok window)).aggregateFacts = some (.int 0) :=
        congrArg (fun n => some (Value.int n)) hnone
      rw [hfind, Option.some_inj, Value.int.injEq]
      exact ⟨fun ⟨hlist, hzero⟩ => ⟨by exact_mod_cast hzero.symm, hlist, hcounters⟩,
        fun ⟨hzero, hlist, _⟩ => ⟨hlist, by exact_mod_cast hzero.symm⟩⟩
    · obtain ⟨message, rfl⟩ := hreturns.failed hcounters
      refine iff_of_false (fun h => ?_) fun h => hcounters h.2.2
      cases h.2

/-- **The flag history is not real.** In every run of the requests of one customer, each decision
sees how many of the customer's recorded decisions were flags exactly when there is none, in every
decision that no list and no counter keeps from seeing the fact. -/
theorem flag_history_iff (hcustomer : ∀ r, (requests r).velocity hash = velocity)
    (hvalid : ∀ r, ∃ payload, parseTransaction py payload = .ok (requests r).transaction)
    (hnew : NoHistory velocity s.redis) (steps : List PathStep) :
    Along (pathStep py hash requests) (SeesFlags py hash requests) s steps ↔
      Along (pathStep py hash requests) (NoFlagYet hash requests) s steps :=
  along_congr (fun _ a h => seesFlags_iff hcustomer hvalid h a)
    (fun _ _ _ h _ hstep => pathStep_remembers hcustomer h hstep) ⟨[], hnew.remembers py⟩

end

/-! Two requests of one customer under a rule that flags both. -/

def flagHandler : DecisionHandler where
  tenantId := "tnt_1"
  ruleset := .ofRules 1
    [{ id := "rul_1", name := "Over five", severity := .flag,
       tree := .compare (.name "amount_minor") [(.gt, .constant (.int 500))] }]
  salt := "salt"

def flaggedRequests (r : Nat) : DecisionRequest where
  handler := flagHandler
  transaction := transferOf (if r = 0 then "tx_1" else "tx_2") 700
  idempotencyKey := if r = 0 then "key_1" else "key_2"

def idlePath : DecisionPath := ⟨⟨{}, fun _ => .received⟩, {}⟩

def firstFlag : List PathStep :=
  [.find 0, .evaluate 0 {} ⟨10000000, 0⟩ "dec_1" 5, .save 0, .answer 0, .find 1]

theorem flaggedRequests_velocity (r : Nat) :
    (flaggedRequests r).velocity (fun ref _ => ref) = sampleVelocity := rfl

theorem flaggedRequests_valid (r : Nat) :
    ∃ payload, parseTransaction clockPython payload = .ok (flaggedRequests r).transaction := by
  by_cases hr : r = 0
  · exact ⟨_, by rw [flaggedRequests, if_pos hr]; exact (parseTransaction_payloadOf 700).1⟩
  · exact ⟨_, by rw [flaggedRequests, if_neg hr]; exact (parseTransaction_payloadOf 700).2⟩

theorem flag_history_first : Along (pathStep clockPython (fun ref _ => ref) flaggedRequests)
    (SeesFlags clockPython (fun ref _ => ref) flaggedRequests) idlePath firstFlag := by
  refine (flag_history_iff flaggedRequests_velocity flaggedRequests_valid
    (noHistory_empty _) firstFlag).mpr ⟨trivial, fun t ht => ⟨?_, fun u _ => ?_⟩⟩
  · cases ht
    refine ⟨rfl, rfl, fun fields hfields => ?_⟩
    cases hfields
    have hlength : ([] : List RecordCall).length + 1 < 2 ^ 63 := by decide
    exact countersTake_of_fits clockPython (c := aheadAttempt.call) hlength (by decide) (by decide)
  · refine along_of_forall fun a ha s => ?_
    simp only [List.mem_cons, List.not_mem_nil, or_false] at ha
    rcases ha with rfl | rfl | rfl <;> trivial

theorem flag_unseen :
    ((run (pathStep clockPython (fun ref _ => ref) flaggedRequests) idlePath firstFlag).map
      fun s => flagsRecorded sampleVelocity s.world.db) = some 1 ∧
    ¬ Along (pathStep clockPython (fun ref _ => ref) flaggedRequests)
      (SeesFlags clockPython (fun ref _ => ref) flaggedRequests) idlePath
      (firstFlag ++ [.evaluate 1 {} ⟨20000000, 0⟩ "dec_2" 5]) := by
  have hflag : ((run (pathStep clockPython (fun ref _ => ref) flaggedRequests) idlePath
      firstFlag).map fun s => flagsRecorded sampleVelocity s.world.db) = some 1 := by
    decide +kernel
  refine ⟨hflag, fun h => ?_⟩
  obtain ⟨s, hrun, hone⟩ := Option.map_eq_some_iff.mp hflag
  have hremembers : ∃ done, Remembers clockPython sampleVelocity s.redis done :=
    run_invariant (fun s => ∃ done, Remembers clockPython sampleVelocity s.redis done)
      (fun _ _ _ h hstep => pathStep_remembers flaggedRequests_velocity h hstep)
      ⟨[], (noHistory_empty _).remembers _⟩ hrun
  have hsees := along_iff_forall.mp h firstFlag _ [] s rfl hrun
  have hnone := ((seesFlags_iff flaggedRequests_velocity flaggedRequests_valid hremembers _).mp hsees).1
  exact absurd (hone.symm.trans hnone) (by decide)

end ComplyLayer
