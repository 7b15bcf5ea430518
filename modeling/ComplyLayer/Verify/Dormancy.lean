import ComplyLayer.Verify.History

/-!
# Days since the last activity

A decision writes its own moment as the last activity before it reads the counters, in one
transaction. So the rules see zero days, whatever the pause was; only the days since the first
transaction are those the clocks say.
-/

namespace ComplyLayer

open Theory Redis

/-- The recording an attempt makes. -/
def Attempt.call (a : Attempt) : RecordCall :=
  ⟨a.elapsed, a.now.timestamp,
    ⟨a.transaction.transactionRef, a.transaction.amountMinor, a.transaction.transactionType⟩⟩

/-- What the rules of a decision see under a name. -/
def seenFact (a : Attempt) (gathered : Gathered) (name : String) : Option Value :=
  (buildFacts a.transaction gathered a.store.namedLists).get? name

/-- The rules of each decision after the first see the whole days since the one before it, and
since the first. -/
def DaysMeasured (py : Python) (handler : DecisionHandler) (velocity : RedisVelocity)
    (server : Server) (attempts : List Attempt) : Prop :=
  ∀ before p a after first gathered result, attempts = before ++ p :: a :: after →
    attempts.head? = some first →
    (decisionsOf py handler velocity server attempts)[before.length + 1]? =
      some (gathered, result) →
    seenFact a gathered "days_since_last_activity" = some (.int (wholeDaysBetween a.now p.now)) ∧
    seenFact a gathered "customer_known_days" = some (.int (wholeDaysBetween a.now first.now))

section
variable {py : Python} {handler : DecisionHandler} {velocity : RedisVelocity} {server : Server}
  {attempts : List Attempt}

/-- The decisions are made of what the recordings return. -/
theorem decisionsOf_eq_zipWith (py : Python) (handler : DecisionHandler) (velocity : RedisVelocity)
    (server : Server) (attempts : List Attempt) :
    decisionsOf py handler velocity server attempts =
      List.zipWith (fun a result => (Gathered.ofFetch result,
          handler.evaluate py a.store a.transaction (.ofFetch result) a.now)) attempts
        (recordAll py velocity server (attempts.map Attempt.call)).2 := by
  induction attempts generalizing server with
  | nil => rfl
  | cons a rest ih =>
    rw [decisionsOf, List.map_cons, recordAll]
    exact congrArg (_ :: ·) (ih _)

theorem wholeDays_timestamp (now moment : Instant) :
    wholeDays (now.timestamp - moment.timestamp) = max 0 (wholeDaysBetween now moment) := by
  have hseconds : (now.timestamp - moment.timestamp) / 86400 =
      ((now.micros - moment.micros : Int) : ℚ) / ((86400 * 1000000 : Nat) : ℚ) := by
    simp only [Instant.timestamp]
    push_cast
    ring
  have hfloor : Rat.floor ((now.timestamp - moment.timestamp) / 86400) =
      wholeDaysBetween now moment := by
    rw [hseconds, wholeDaysBetween, Int.fdiv_eq_ediv_of_nonneg _ (by decide)]
    exact Rat.floor_intCast_div_natCast _ _
  rw [wholeDays, hfloor]

/-- Of one recording: what the two facts are where it returns. -/
theorem find_days {first : Attempt} {rest : List Attempt} {a : Attempt} {window : Window}
    (hreturns : Returns py ((first :: rest).map Attempt.call) a.call (.ok window))
    (hreads : ∀ b ∈ [first, a], py.float (py.repr (.float b.now.timestamp)) =
      some b.now.timestamp) (hclock : first.now.micros ≤ a.now.micros) :
    Dict.find "days_since_last_activity" (Gathered.window window).aggregateFacts =
      some (.int 0) ∧
    Dict.find "customer_known_days" (Gathered.window window).aggregateFacts =
      some (.int (if first.now.micros = 0 then 0 else wholeDaysBetween a.now first.now)) := by
  obtain ⟨hfirst, hlast⟩ := List.forall_mem_cons.mp hreads
  obtain ⟨hnow, haggregates⟩ := hreturns.window_eq
  have hlastAt : window.aggregates.lastTransactionAt = a.now.timestamp := by
    rw [haggregates]
    exact lastTransactionAt_eq _ (hlast a (List.mem_singleton_self a))
  have hfirstAt : window.aggregates.firstSeenAt = first.now.timestamp := by
    rw [haggregates]
    exact firstSeenAt_eq (c := first.call) (rest.map Attempt.call ++ [a.call]) hfirst
  have hzero : first.now.timestamp = 0 ↔ first.now.micros = 0 := by
    rw [Instant.timestamp, div_eq_zero_iff]
    norm_num
  have hdays : 0 ≤ wholeDaysBetween a.now first.now :=
    Int.fdiv_nonneg (by omega) (by decide)
  have hnow' : window.now = a.now.timestamp := hnow
  constructor
  · change some (Value.int (if window.aggregates.lastTransactionAt = 0 then 0 else
      wholeDays (window.now - window.aggregates.lastTransactionAt))) = _
    have hnone : wholeDays 0 = 0 := by decide +kernel
    rw [hlastAt, hnow', sub_self, hnone, ite_self]
  · change some (Value.int (if window.aggregates.firstSeenAt = 0 then 0 else
      wholeDays (window.now - window.aggregates.firstSeenAt))) = _
    rw [hfirstAt, hnow', wholeDays_timestamp, max_eq_right hdays]
    simp only [hzero]

/-- Where a decision finds its fetch, and what the fetch returned. -/
theorem decisionsOf_returns (handler : DecisionHandler) (hnew : NoHistory velocity server)
    (helapsed : ∀ a ∈ attempts, 0 ≤ a.elapsed) {before after : List Attempt} {a : Attempt}
    (hsplit : attempts = before ++ a :: after) : ∃ result,
      (decisionsOf py handler velocity server attempts)[before.length]? =
        some (.ofFetch result, handler.evaluate py a.store a.transaction (.ofFetch result) a.now) ∧
      Returns py (before.map Attempt.call) a.call result := by
  have helapsed' : ∀ c ∈ attempts.map Attempt.call, 0 ≤ c.elapsed := by
    intro c hc
    obtain ⟨b, hb, rfl⟩ := List.mem_map.mp hc
    exact helapsed b hb
  obtain ⟨-, hresults⟩ := recordAll_remembers (hnew.remembers py) hnew.renewed
    (fun _ _ _ b hb => by cases hb) helapsed'
  obtain ⟨result, hget, hreturns, -⟩ := hresults (before.map Attempt.call) a.call
    (after.map Attempt.call) (by rw [hsplit, List.map_append, List.map_cons])
  rw [List.length_map] at hget
  have ha : attempts[before.length]? = some a := by
    rw [hsplit, List.getElem?_append_right (le_refl _), Nat.sub_self, List.getElem?_cons_zero]
  refine ⟨result, ?_, hreturns⟩
  rw [decisionsOf_eq_zipWith, List.getElem?_zipWith, ha, hget]

/-- A rule sees a number of the aggregates where no list has the name and the fetch returned it. -/
theorem seenFact_eq_int_iff {a : Attempt} (gathered : Gathered) (hname : name ∈ aggregateNames)
    (hcustomer : name ∉ a.transaction.customer.keys) :
    seenFact a gathered name = some (.int n) ↔
      a.store.namedLists.get? name = none ∧
        Dict.find name gathered.aggregateFacts = some (.int n) := by
  rw [seenFact, get?_buildFacts_aggregate hname hcustomer]
  cases a.store.namedLists.get? name with
  | none => simp
  | some values => simp

/-- **The days since the last activity are never counted.** At instants that do not go back, the
rules see the days the clocks say exactly when in every decision after the first the counters take
its amount, no list has the name of one of the two facts, the decision before it was less than a
day ago, and the first was not at the epoch, or less than a day ago. -/
theorem days_measured_iff (handler : DecisionHandler) (hnew : NoHistory velocity server)
    (helapsed : ∀ a ∈ attempts, 0 ≤ a.elapsed)
    (hvalid : ∀ a ∈ attempts, ∃ payload, parseTransaction py payload = .ok a.transaction)
    (hreads : ∀ a ∈ attempts, py.float (py.repr (.float a.now.timestamp)) = some a.now.timestamp)
    (hclocks : attempts.Pairwise fun a b => a.now.micros ≤ b.now.micros) :
    DaysMeasured py handler velocity server attempts ↔
      ∀ before p a after first, attempts = before ++ p :: a :: after →
        attempts.head? = some first →
        RedisVelocity.CountersTake (aggregatesAfter py ((before ++ [p]).map Attempt.call))
          a.call.recorded ∧
        a.store.namedLists.get? "days_since_last_activity" = none ∧
        a.store.namedLists.get? "customer_known_days" = none ∧
        wholeDaysBetween a.now p.now = 0 ∧
        (first.now.micros = 0 → wholeDaysBetween a.now first.now = 0) := by
  -- Decision by decision.
  have hone {before : List Attempt} {p a : Attempt} {after : List Attempt} {first : Attempt}
      (hsplit : attempts = before ++ p :: a :: after) (hfirst : attempts.head? = some first) :
      (∀ gathered result, (decisionsOf py handler velocity server attempts)[before.length + 1]? =
          some (gathered, result) →
        seenFact a gathered "days_since_last_activity" =
            some (.int (wholeDaysBetween a.now p.now)) ∧
          seenFact a gathered "customer_known_days" =
            some (.int (wholeDaysBetween a.now first.now))) ↔
        RedisVelocity.CountersTake (aggregatesAfter py ((before ++ [p]).map Attempt.call))
          a.call.recorded ∧
        a.store.namedLists.get? "days_since_last_activity" = none ∧
        a.store.namedLists.get? "customer_known_days" = none ∧
        wholeDaysBetween a.now p.now = 0 ∧
        (first.now.micros = 0 → wholeDaysBetween a.now first.now = 0) := by
    have hsplit' : attempts = (before ++ [p]) ++ a :: after := by simp [hsplit]
    obtain ⟨rest, hrest⟩ : ∃ rest, before ++ [p] = first :: rest := by
      cases before with
      | nil =>
        rw [hsplit] at hfirst
        exact ⟨[], by rw [List.nil_append, Option.some.inj hfirst]⟩
      | cons b before =>
        rw [hsplit] at hfirst
        exact ⟨before ++ [p], by rw [List.cons_append, Option.some.inj hfirst]⟩
    have ha : a ∈ attempts := hsplit' ▸ List.mem_append_right _ List.mem_cons_self
    have hin : first ∈ attempts :=
      hsplit' ▸ List.mem_append_left _ (hrest ▸ List.mem_cons_self)
    have hclock : first.now.micros ≤ a.now.micros := by
      rw [hsplit', hrest] at hclocks
      exact (List.pairwise_append.mp hclocks).2.2 first List.mem_cons_self a List.mem_cons_self
    obtain ⟨payload, hpayload⟩ := hvalid a ha
    have hcustomer : ∀ name, name ∉ customerFields → name ∉ a.transaction.customer.keys :=
      fun name hname hmem => hname ((parseTransaction_ok hpayload).2 name hmem)
    obtain ⟨result, hget, hreturns⟩ := decisionsOf_returns handler hnew helapsed hsplit'
    rw [List.length_append, List.length_singleton] at hget
    have honly : (∀ gathered result', (decisionsOf py handler velocity server
          attempts)[before.length + 1]? = some (gathered, result') →
        seenFact a gathered "days_since_last_activity" =
            some (.int (wholeDaysBetween a.now p.now)) ∧
          seenFact a gathered "customer_known_days" =
            some (.int (wholeDaysBetween a.now first.now))) ↔
        seenFact a (.ofFetch result) "days_since_last_activity" =
            some (.int (wholeDaysBetween a.now p.now)) ∧
          seenFact a (.ofFetch result) "customer_known_days" =
            some (.int (wholeDaysBetween a.now first.now)) := by
      rw [hget]
      exact ⟨fun h => h _ _ rfl, fun h gathered result' heq => by cases heq; exact h⟩
    rw [honly, seenFact_eq_int_iff _ (by decide) (hcustomer _ (by decide)),
      seenFact_eq_int_iff _ (by decide) (hcustomer _ (by decide))]
    by_cases htake : RedisVelocity.CountersTake
        (aggregatesAfter py ((before ++ [p]).map Attempt.call)) a.call.recorded
    · obtain ⟨window, hwindow⟩ : ∃ window, result = .ok window := by
        obtain ⟨scores, amounts, -, hwindow⟩ := hreturns.window htake
        exact ⟨_, hwindow⟩
      rw [hwindow, hrest] at hreturns
      obtain ⟨hdays, hknown⟩ := find_days hreturns
        (by
          intro b hb
          rcases List.mem_cons.mp hb with rfl | hb
          · exact hreads _ hin
          · rw [List.mem_singleton.mp hb]
            exact hreads a ha) hclock
      have hzero (n : Int) : some (Value.int 0) = some (.int n) ↔ n = 0 := by
        rw [Option.some_inj, Value.int.injEq, eq_comm]
      have hepoch (n : Int) : some (Value.int (if first.now.micros = 0 then 0 else n)) =
          some (.int n) ↔ (first.now.micros = 0 → n = 0) := by
        rw [Option.some_inj, Value.int.injEq]
        split
        · exact ⟨fun h _ => h.symm, fun h => (h ‹_›).symm⟩
        · exact iff_of_true rfl fun h => absurd h ‹_›
      rw [hwindow, show Gathered.ofFetch (.ok _) = .window _ from rfl, hdays, hknown, hzero, hepoch]
      exact ⟨fun ⟨⟨hd, hdays⟩, hk, hknown⟩ => ⟨htake, hd, hk, hdays, hknown⟩,
        fun ⟨_, hd, hk, hdays, hknown⟩ => ⟨⟨hd, hdays⟩, hk, hknown⟩⟩
    · obtain ⟨message, hfailed⟩ := hreturns.failed htake
      rw [hfailed]
      refine iff_of_false (fun h => ?_) fun h => htake h.1
      cases h.1.2
  constructor
  · intro h before p a after first hsplit hfirst
    exact (hone hsplit hfirst).mp fun gathered result hget =>
      h before p a after first gathered result hsplit hfirst hget
  · intro h before p a after first gathered result hsplit hfirst hget
    exact (hone hsplit hfirst).mpr (h before p a after first hsplit hfirst) gathered result hget

end

/-! A second transaction, an hour after the first and ninety-five days after it. -/

def payloadOf (ref : String) (amount : Int) : Dict String Value :=
  .ofList [("transaction_ref", .str ref), ("customer_ref", .str "c_1"),
    ("amount_minor", .int amount), ("currency", .str "NGN")]

theorem parseTransaction_payloadOf (amount : Nat) :
    parseTransaction clockPython (payloadOf "tx_1" amount) = .ok (transferOf "tx_1" amount) ∧
    parseTransaction clockPython (payloadOf "tx_2" amount) = .ok (transferOf "tx_2" amount) :=
  ⟨rfl, rfl⟩

def soonAttempt : Attempt :=
  { elapsed := 3600, transaction := transferOf "tx_2" 300, now := ⟨3610000000, 0⟩ }

def dormantAttempt : Attempt :=
  { elapsed := 95 * 86400, transaction := transferOf "tx_2" 300,
    now := ⟨10000000 + 95 * 86400 * 1000000, 0⟩ }

theorem days_measured_soon :
    DaysMeasured clockPython thresholdHandler sampleVelocity {} [aheadAttempt, soonAttempt] := by
  have helapsed : ∀ a ∈ [aheadAttempt, soonAttempt], 0 ≤ a.elapsed := by decide
  have hvalid : ∀ a ∈ [aheadAttempt, soonAttempt], ∃ payload,
      parseTransaction clockPython payload = .ok a.transaction := by
    intro a ha
    rcases List.mem_cons.mp ha with rfl | ha
    · exact ⟨_, (parseTransaction_payloadOf 700).1⟩
    · rw [List.mem_singleton.mp ha]
      exact ⟨_, (parseTransaction_payloadOf 300).2⟩
  have hreads : ∀ a ∈ [aheadAttempt, soonAttempt],
      clockPython.float (clockPython.repr (.float a.now.timestamp)) = some a.now.timestamp := by
    decide +kernel
  refine (days_measured_iff thresholdHandler (noHistory_empty _) helapsed hvalid hreads
    (by decide)).mpr ?_
  intro before p a after first hsplit hfirst
  cases before with
  | nil =>
    cases hsplit
    cases hfirst
    exact ⟨countersTake_of_fits _ (by decide) (by decide) (by decide), rfl, rfl, by decide,
      by decide⟩
  | cons b before =>
    have hlength := congrArg List.length hsplit
    simp at hlength
    omega

theorem dormancy_unseen :
    ¬ DaysMeasured clockPython thresholdHandler sampleVelocity {} [aheadAttempt, dormantAttempt] ∧
    wholeDaysBetween dormantAttempt.now aheadAttempt.now = 95 ∧
    ∃ gathered result, (decisionsOf clockPython thresholdHandler sampleVelocity {}
        [aheadAttempt, dormantAttempt])[1]? = some (gathered, result) ∧
      seenFact dormantAttempt gathered "days_since_last_activity" = some (.int 0) := by
  have helapsed : ∀ a ∈ [aheadAttempt, dormantAttempt], 0 ≤ a.elapsed := by decide +kernel
  have hsplit : [aheadAttempt, dormantAttempt] = [aheadAttempt] ++ dormantAttempt :: [] := rfl
  obtain ⟨result, hget, hreturns⟩ := decisionsOf_returns thresholdHandler
    (noHistory_empty sampleVelocity) helapsed hsplit
  obtain ⟨window, hwindow⟩ : ∃ window, result = .ok window := by
    obtain ⟨scores, amounts, -, hwindow⟩ := hreturns.window
      (countersTake_of_fits _ (by decide) (by decide) (by decide))
    exact ⟨_, hwindow⟩
  rw [hwindow] at hget hreturns
  have hreads : ∀ b ∈ [aheadAttempt, dormantAttempt], clockPython.float
      (clockPython.repr (.float b.now.timestamp)) = some b.now.timestamp := by decide +kernel
  obtain ⟨hdays, -⟩ := find_days (a := dormantAttempt) hreturns hreads (by decide)
  have hseen : seenFact dormantAttempt (.window window) "days_since_last_activity" =
      some (.int 0) :=
    (seenFact_eq_int_iff _ (by decide) (by decide)).mpr ⟨rfl, hdays⟩
  refine ⟨fun h => ?_, rfl, _, _, hget, hseen⟩
  have hmeasured := (h [] aheadAttempt dormantAttempt [] aheadAttempt _ _ rfl rfl hget).1
  cases hseen.symm.trans hmeasured

end ComplyLayer
