import ComplyLayer.Engine.Results
import ComplyLayer.Theory.Outcomes
import ComplyLayer.Velocity.RedisStore
import Mathlib.Algebra.Order.BigOperators.Group.List

/-!
# Velocity thresholds

The decisions of one customer, each of which records its transaction and reads the window in one
step. The `k`-th step sees `k` transactions, whatever the order of the clock readings, so a
threshold lets exactly its number through: as long as the counters of the pipeline take the
amounts, and the keys live from one step to the next.
-/

namespace ComplyLayer

open Theory Redis

/-- A decision of the customer, with the time on the server since the one before. -/
structure Attempt where
  elapsed : ℚ := 0
  transaction : Transaction
  now : Instant
  store : StoreView := {}

namespace Attempt

def ref (a : Attempt) : String := a.transaction.transactionRef

def amount (a : Attempt) : Int := a.transaction.amountMinor

end Attempt

/-- The sum of the amounts. -/
def volume (attempts : List Attempt) : Int := (attempts.map Attempt.amount).sum

/-- Gather and evaluate the decisions in the order their steps are executed in. -/
def decisionsOf (py : Python) (handler : DecisionHandler) (velocity : RedisVelocity)
    (server : Server) : List Attempt → List (Gathered × Except Raised (Decision × Dict String Value))
  | [] => []
  | a :: rest =>
    let (server', gathered) :=
      DecisionHandler.gather py velocity (server.elapse a.elapsed) a.transaction a.now
    (gathered, handler.evaluate py a.store a.transaction gathered a.now) ::
      decisionsOf py handler velocity server' rest

/-- What a rule sees in `velocity_count(window=w)`. -/
def seenCount (gathered : Gathered) (w : String) : Except Raised Value :=
  velocityCount gathered.provider [] (.ofList [("window", .str w)])

/-- What a rule sees in `velocity_sum(window=w)`. -/
def seenSum (gathered : Gathered) (w : String) : Except Raised Value :=
  velocitySum gathered.provider [] (.ofList [("window", .str w)])

/-- `velocity_count(window=w) > T`. -/
def overThreshold (w : String) (T : Nat) : Node :=
  .compare (.call (.name "velocity_count") [] [(some "window", .constant (.str w))])
    [(.gt, .constant (.int T))]

/-- The decision lets the transaction through. -/
def Allowed (result : Except Raised (Decision × Dict String Value)) : Bool :=
  match result with
  | .ok (decision, _) => decision.outcome = .allow
  | .error _ => false

/-- The server holds the history of the customer: the members with their scores, each with its
amount, and the counters. -/
structure Holds (velocity : RedisVelocity) (server : Server) (done : List Attempt) : Prop where
  members : ∃ scores, server.sortedSet? velocity.membersKey = some scores ∧
    scores.entries = done.map fun a => (a.ref, a.now.timestamp)
  amounts : ∃ amounts, server.hash? velocity.amountsKey = some amounts ∧ ∀ a ∈ done,
    amounts.get? a.ref = some (amountText a.amount a.transaction.transactionType)
  aggregates : ∃ aggregates, server.hash? velocity.aggregatesKey = some aggregates ∧
    counter? (aggregates.get? "lifetime_count") = some (done.length : Int) ∧
    counter? (aggregates.get? "lifetime_volume_minor") = some (volume done)

/-- The keys of the window live for their whole time, and the counters for ever. -/
structure Renewed (velocity : RedisVelocity) (server : Server) : Prop where
  members : ∀ deadline, server.deadline? velocity.membersKey = some deadline →
    server.now + keyTtlSeconds ≤ deadline
  amounts : ∀ deadline, server.deadline? velocity.amountsKey = some deadline →
    server.now + keyTtlSeconds ≤ deadline
  aggregates : server.deadline? velocity.aggregatesKey = none

/-- The customer has no history. -/
structure NoHistory (velocity : RedisVelocity) (server : Server) : Prop where
  members : server.find? velocity.membersKey = none
  amounts : server.find? velocity.amountsKey = none
  aggregates : server.find? velocity.aggregatesKey = none

section
variable {velocity : RedisVelocity} {server server' : Server} {done : List Attempt} {a : Attempt}
  {seconds : ℚ}

theorem NoHistory.holds (h : NoHistory velocity server) : Holds velocity server [] where
  members := ⟨∅, by rw [Server.sortedSet?, h.members]; rfl, rfl⟩
  amounts := ⟨∅, by rw [Server.hash?, h.amounts]; rfl, by simp⟩
  aggregates := ⟨∅, by rw [Server.hash?, h.aggregates]; rfl, rfl, rfl⟩

theorem NoHistory.renewed (h : NoHistory velocity server) : Renewed velocity server where
  members deadline hd := by
    rw [Server.deadline?, h.members] at hd
    cases hd
  amounts deadline hd := by
    rw [Server.deadline?, h.amounts] at hd
    cases hd
  aggregates := by
    rw [Server.deadline?, h.aggregates]
    rfl

/-- Nothing is forgotten within the time to live. -/
theorem Holds.elapse (h : Holds velocity server done) (hrenewed : Renewed velocity server)
    (hseconds : 0 ≤ seconds) (hlive : seconds < keyTtlSeconds) :
    Holds velocity (server.elapse seconds) done := by
  have hmembers : (server.elapse seconds).find? velocity.membersKey =
      server.find? velocity.membersKey :=
    Server.find?_elapse_of_lt hseconds fun deadline hd => by linarith [hrenewed.members deadline hd]
  have hamounts : (server.elapse seconds).find? velocity.amountsKey =
      server.find? velocity.amountsKey :=
    Server.find?_elapse_of_lt hseconds fun deadline hd => by linarith [hrenewed.amounts deadline hd]
  have haggregates : (server.elapse seconds).find? velocity.aggregatesKey =
      server.find? velocity.aggregatesKey :=
    Server.find?_elapse_of_lt hseconds fun deadline hd => by
      rw [hrenewed.aggregates] at hd
      cases hd
  constructor
  · rw [Server.sortedSet?_congr hmembers]
    exact h.members
  · rw [Server.hash?_congr hamounts]
    exact h.amounts
  · rw [Server.hash?_congr haggregates]
    exact h.aggregates

/-- What a fetched window shows of the steps executed so far. -/
structure Shows (window : Window) (now : ℚ) (done : List Attempt) : Prop where
  now : window.now = now
  amounts : (window.entries.map WindowEntry.amount).Perm (done.map Attempt.amount)
  scores : ∀ entry ∈ window.entries, ∃ b ∈ done, entry.score = b.now.timestamp

theorem windowOf_shows {py : Python} {now : ℚ} {members : List (String × ℚ)}
    {amounts aggregates : Dict String String}
    (hmembers : members.Perm (done.map fun a => (a.ref, a.now.timestamp)))
    (hamounts : ∀ a ∈ done,
      amounts.get? a.ref = some (amountText a.amount a.transaction.transactionType))
    (hlength : done.length ≤ maxMembersFetched) :
    Shows (windowOf py now members amounts aggregates) now done := by
  have hall : members.drop (members.length - maxMembersFetched) = members := by
    rw [hmembers.length_eq, List.length_map, Nat.sub_eq_zero_of_le hlength, List.drop_zero]
  refine ⟨rfl, ?_, fun entry hentry => ?_⟩
  · have hmap : (windowOf py now members amounts aggregates).entries.map WindowEntry.amount =
        members.map fun member => (splitAmount (amounts.get? member.1)).1 := by
      simp only [windowOf, hall, List.map_map]
      rfl
    have hamount : done.map Attempt.amount = (done.map fun a => (a.ref, a.now.timestamp)).map
        fun member => (splitAmount (amounts.get? member.1)).1 := by
      rw [List.map_map]
      refine List.map_congr_left fun a ha => ?_
      rw [Function.comp_apply, hamounts a ha, splitAmount_amountText]
    rw [hmap, hamount]
    exact hmembers.map _
  · simp only [windowOf, hall] at hentry
    obtain ⟨member, hmember, rfl⟩ := List.mem_map.mp hentry
    obtain ⟨b, hb, rfl⟩ := List.mem_map.mp (hmembers.mem_iff.mp hmember)
    exact ⟨b, hb, rfl⟩

/-- One decision: its transaction joins the history, and it sees the whole of it. -/
theorem Holds.gather (py : Python) (h : Holds velocity server done)
    (hclocks : ∀ b ∈ done, a.now.timestamp - b.now.timestamp < largestWindowSeconds)
    (href : a.ref ∉ done.map Attempt.ref) (hamount : Fits a.amount)
    (hvolume : Fits (volume done + a.amount)) (hlength : done.length + 1 ≤ maxMembersFetched) :
    ∃ server' window,
      DecisionHandler.gather py velocity server a.transaction a.now = (server', .window window) ∧
      Holds velocity server' (done ++ [a]) ∧ Renewed velocity server' ∧
      Shows window a.now.timestamp (done ++ [a]) := by
  obtain ⟨scores, hscores, hentries⟩ := h.members
  obtain ⟨amounts, hamounts, htexts⟩ := h.amounts
  obtain ⟨aggregates, haggregates, hcounted, hsummed⟩ := h.aggregates
  let t : Recorded := ⟨a.ref, a.amount, a.transaction.transactionType⟩
  have hcount : Fits ((done.length : Int) + 1) := by
    have : (done.length : Int) + 1 ≤ 5000 := by exact_mod_cast hlength
    constructor <;> omega
  obtain ⟨server', aggregates', hfetch, hnow, hm, ha, hg, hc, hv⟩ :=
    RedisVelocity.recordAndGather_eq_ok py t a.now.timestamp hscores hamounts haggregates
      (increased_eq_ok hcounted (by decide) hcount)
      (increased_eq_ok hsummed hamount hvolume)
  -- No member is old enough to be trimmed, and the reference is a new one.
  have hkept : RedisVelocity.recordedMembers scores a.now.timestamp t =
      scores.set a.ref a.now.timestamp := by
    rw [RedisVelocity.recordedMembers, Dict.filter_eq_self]
    intro entry hentry
    rw [hentries] at hentry
    obtain ⟨b, hb, rfl⟩ := List.mem_map.mp hentry
    have := hclocks b hb
    exact decide_eq_true fun htrimmed => by linarith [htrimmed.2]
  have hmembers : (scores.set a.ref a.now.timestamp).entries =
      (done ++ [a]).map fun b => (b.ref, b.now.timestamp) := by
    rw [Dict.entries_set_of_not_mem, hentries, List.map_append]
    · rfl
    · rw [Dict.keys, hentries, List.map_map]
      exact href
  have htexts' : ∀ b ∈ done ++ [a], (amounts.set a.ref
      (amountText a.amount a.transaction.transactionType)).get? b.ref =
        some (amountText b.amount b.transaction.transactionType) := by
    intro b hb
    rcases List.mem_append.mp hb with hb | hb
    · rw [Dict.get?_set_of_ne fun (heq : b.ref = a.ref) => href (heq ▸ List.mem_map_of_mem hb)]
      exact htexts b hb
    · rw [List.mem_singleton.mp hb, Dict.get?_set_self]
  have hread : (rangeFrom (scores.set a.ref a.now.timestamp)
      (a.now.timestamp - largestWindowSeconds)).Perm
        ((done ++ [a]).map fun b => (b.ref, b.now.timestamp)) := by
    rw [rangeFrom, List.filter_eq_self.mpr, hmembers]
    · exact perm_sortBy _ _
    · intro entry hentry
      rw [hmembers] at hentry
      obtain ⟨b, hb, rfl⟩ := List.mem_map.mp hentry
      refine decide_eq_true ?_
      rcases List.mem_append.mp hb with hb | hb
      · have := hclocks b hb
        simp only
        linarith
      · rw [List.mem_singleton.mp hb]
        simp
  rw [hkept] at hfetch hm
  refine ⟨server', _, DecisionHandler.gather_of_ok hfetch, ?_, ?_,
    windowOf_shows hread htexts' ?_⟩
  · refine ⟨⟨_, Server.sortedSet?_of_find? hm, hmembers⟩, ⟨_, Server.hash?_of_find? ha, htexts'⟩,
      ⟨_, Server.hash?_of_find? hg, ?_, ?_⟩⟩
    · rw [hc, counter?_toString hcount, List.length_append, List.length_singleton]
      simp
    · have hsum : volume (done ++ [a]) = volume done + a.amount := by simp [volume]
      rw [hv, hsum]
      exact counter?_toString hvolume
  · refine ⟨fun deadline hd => ?_, fun deadline hd => ?_, Server.deadline?_of_find? hg⟩
    · rw [Server.deadline?_of_find? hm] at hd
      cases hd
      rw [hnow]
    · rw [Server.deadline?_of_find? ha] at hd
      cases hd
      rw [hnow]
  · rw [List.length_append]
    exact hlength

/-! ## What the rules see -/

theorem velocityFunction_window (method : Nat → Filters → Except Raised Int) (w : String) :
    velocityFunction method [] (.ofList [("window", .str w)]) =
      windowSeconds (.str w) >>= fun seconds => method seconds {} >>= fun n => pure (.int n) := rfl

theorem windowSeconds_of_supported {w : String} {n : Nat} (h : windowSeconds? w = some n) :
    windowSeconds (.str w) = .ok n := by
  rw [windowSeconds, h]

/-- All of a window whose steps lie within `n` seconds of its clock. -/
theorem Shows.matching {window : Window} {now : ℚ} {n : Nat} (h : Shows window now done)
    (hclocks : ∀ b ∈ done, now - b.now.timestamp < n) :
    window.matching n {} = .ok (window.entries.map WindowEntry.amount) := by
  refine Window.matchingFrom_unfiltered fun entry hentry => ?_
  obtain ⟨b, hb, hscore⟩ := h.scores entry hentry
  rw [h.now, hscore]
  linarith [hclocks b hb]

theorem Shows.seenCount {window : Window} {now : ℚ} {n : Nat} (h : Shows window now done)
    (hw : windowSeconds? w = some n) (hclocks : ∀ b ∈ done, now - b.now.timestamp < n) :
    seenCount (.window window) w = .ok (.int done.length) := by
  have hlength : (window.entries.map WindowEntry.amount).length = done.length := by
    rw [h.amounts.length_eq, List.length_map]
  have hcount : window.count n {} = .ok (done.length : Int) := by
    rw [Window.count, h.matching hclocks, ← hlength]
    rfl
  rw [ComplyLayer.seenCount, velocityCount, velocityFunction_window, windowSeconds_of_supported hw]
  exact bind_eq_ok.mpr ⟨n, rfl, bind_eq_ok.mpr ⟨_, hcount, rfl⟩⟩

theorem Shows.seenSum {window : Window} {now : ℚ} {n : Nat} (h : Shows window now done)
    (hw : windowSeconds? w = some n) (hclocks : ∀ b ∈ done, now - b.now.timestamp < n) :
    seenSum (.window window) w = .ok (.int (volume done)) := by
  have hsum : (window.entries.map WindowEntry.amount).sum = volume done := h.amounts.sum_eq
  have htotal : window.total n {} = .ok (volume done) := by
    rw [Window.total, h.matching hclocks, ← hsum]
    rfl
  rw [ComplyLayer.seenSum, velocitySum, velocityFunction_window, windowSeconds_of_supported hw]
  exact bind_eq_ok.mpr ⟨n, rfl, bind_eq_ok.mpr ⟨_, htotal, rfl⟩⟩

/-- A threshold rule compares the count it sees. -/
theorem run_overThreshold (facts : Dict String Value) (py : Python) {gathered : Gathered}
    (now : Instant) {count : Int} (T : Nat) (h : seenCount gathered w = .ok (.int count)) :
    ∃ steps, (Interpreter.run ⟨facts, build py gathered.provider now⟩ maxSteps
      (overThreshold w T)).run 0 = (.ok (decide ((T : Int) < count)), steps) := by
  have hcall : (Interpreter.eval ⟨facts, build py gathered.provider now⟩ maxSteps
      (.call (.name "velocity_count") [] [(some "window", .constant (.str w))])).run 1 =
        (seenCount gathered w, 3) := rfl
  rw [h] at hcall
  have hcompare : (Interpreter.evalCompare ⟨facts, build py gathered.provider now⟩ maxSteps
      (.int count) [(.gt, .constant (.int T))]).run 3 =
        (.ok (.bool (decide ((T : Int) < count))), 4) := by
    have hleft : (Interpreter.eval ⟨facts, build py gathered.provider now⟩ maxSteps
        (.constant (.int T))).run 3 = (.ok (.int T), 4) := rfl
    have hholds : (Interpreter.compareOne .gt (.int count) (.int T)).run 4 =
        (.ok (decide ((T : Int) < count)), 4) := rfl
    rw [Interpreter.evalCompare, Counted.run_bind_of_ok hleft, Counted.run_bind_of_ok hholds]
    cases decide ((T : Int) < count) <;> rfl
  have htick : (Interpreter.tick maxSteps).run 0 = (.ok (), 1) := rfl
  have heval : (Interpreter.eval ⟨facts, build py gathered.provider now⟩ maxSteps
      (overThreshold w T)).run 0 = (.ok (.bool (decide ((T : Int) < count))), 4) := by
    rw [overThreshold, Interpreter.eval, Counted.run_bind_of_ok htick,
      Counted.run_bind_of_ok hcall, hcompare]
  exact ⟨4, Counted.run_bind_of_ok heval⟩

/-- The one live rule, a block rule, decides. -/
theorem decide_single (py : Python) (fallback : Dict Severity String) {ruleset : RuleSet}
    {rule : CompiledRule} {c : EvaluationContext} (hrules : ruleset.rules = [rule])
    (hstate : rule.state = .active) (hseverity : rule.severity = .block)
    (hrun : (Interpreter.run c limit rule.tree).run 0 = (.ok matched, steps)) :
    ∃ decision, ruleset.decide py c fallback limit = .ok decision ∧
      (decision.outcome = .allow ↔ matched = false) := by
  have hactive : ruleset.active = [rule] := by simp [RuleSet.active, hrules, hstate]
  have hshadow : ruleset.shadow = [] := by simp [RuleSet.shadow, hrules, hstate]
  have hone : evaluateOne py rule c limit =
      .ok { rule := rule, matched := matched, steps := steps } := by
    rw [evaluateOne, hrun]
  have hlive : evaluateAll py ruleset.active c limit =
      .ok [{ rule := rule, matched := matched, steps := steps }] := by
    rw [hactive]
    exact bind_eq_ok.mpr ⟨_, hone, rfl⟩
  have hnone : evaluateAll py ruleset.shadow c limit = .ok [] := by
    rw [hshadow]
    rfl
  refine ⟨_, bind_eq_ok.mpr ⟨_, hlive, bind_eq_ok.mpr ⟨_, hnone, rfl⟩⟩, ?_⟩
  cases matched with
  | false => exact ⟨fun _ => rfl, fun _ => rfl⟩
  | true =>
    have hblock : combine [rule] = .block := by simp [combine, hseverity]
    refine ⟨fun hallow => ?_, fun h => by cases h⟩
    cases hblock.symm.trans hallow

end

/-! ## Whole runs -/

/-- Decisions a window of `n` seconds holds together: few enough for one fetch, on references of
their own, read off clocks less than `n` seconds apart, with amounts a counter takes. -/
structure Paced (n : Nat) (attempts : List Attempt) : Prop where
  length : attempts.length ≤ maxMembersFetched
  refs : (attempts.map Attempt.ref).Nodup
  clocks : attempts.Pairwise fun a b => |a.now.timestamp - b.now.timestamp| < (n : ℚ)
  amounts : ∀ a ∈ attempts, 0 ≤ a.amount
  volume : ComplyLayer.volume attempts < 2 ^ 63
  elapsed : ∀ a ∈ attempts, 0 ≤ a.elapsed

theorem volume_append (xs ys : List Attempt) : volume (xs ++ ys) = volume xs + volume ys := by
  simp [volume]

theorem volume_nonneg {attempts : List Attempt} (h : ∀ a ∈ attempts, 0 ≤ a.amount) :
    0 ≤ volume attempts := by
  refine List.sum_nonneg fun amount hamount => ?_
  obtain ⟨a, ha, rfl⟩ := List.mem_map.mp hamount
  exact h a ha

namespace Paced

variable {n : Nat} {done rest : List Attempt} {a : Attempt}

theorem clock (h : Paced n (done ++ a :: rest)) :
    ∀ b ∈ done, a.now.timestamp - b.now.timestamp < n := by
  intro b hb
  have hpair := (List.pairwise_append.mp h.clocks).2.2 b hb a List.mem_cons_self
  rw [abs_sub_comm] at hpair
  exact lt_of_abs_lt hpair

theorem ref (h : Paced n (done ++ a :: rest)) : a.ref ∉ done.map Attempt.ref := by
  have hrefs := h.refs
  rw [List.map_append, List.map_cons] at hrefs
  exact fun ha => (List.nodup_append.mp hrefs).2.2 _ ha _ List.mem_cons_self rfl

theorem fits (h : Paced n (done ++ a :: rest)) :
    Fits a.amount ∧ Fits (ComplyLayer.volume done + a.amount) := by
  have hdone := volume_nonneg fun b hb => h.amounts b (List.mem_append_left _ hb)
  have ha := h.amounts a (List.mem_append_right _ List.mem_cons_self)
  have hrest : 0 ≤ ComplyLayer.volume rest :=
    volume_nonneg fun b hb => h.amounts b (List.mem_append_right _ (List.mem_cons_of_mem _ hb))
  have hvolume := h.volume
  have hcons : ComplyLayer.volume (a :: rest) = a.amount + ComplyLayer.volume rest := by
    simp [ComplyLayer.volume]
  rw [volume_append, hcons] at hvolume
  constructor <;> constructor <;> omega

/-- It does not matter how long ago the time before the first decision began. -/
theorem restarted (h : Paced n (a :: rest)) : Paced n ({ a with elapsed := 0 } :: rest) where
  length := h.length
  refs := h.refs
  clocks := by
    obtain ⟨ha, hrest⟩ := List.pairwise_cons.mp h.clocks
    exact List.pairwise_cons.mpr ⟨ha, hrest⟩
  amounts := by
    obtain ⟨ha, hrest⟩ := List.forall_mem_cons.mp h.amounts
    exact List.forall_mem_cons.mpr ⟨ha, hrest⟩
  volume := h.volume
  elapsed := List.forall_mem_cons.mpr ⟨le_refl 0, (List.forall_mem_cons.mp h.elapsed).2⟩

theorem room (h : Paced n (done ++ a :: rest)) : done.length + 1 ≤ maxMembersFetched := by
  have hlength := h.length
  rw [List.length_append, List.length_cons] at hlength
  omega

end Paced

section
variable {py : Python} {handler : DecisionHandler} {velocity : RedisVelocity} {server : Server}
  {done attempts : List Attempt} {w : String} {n : Nat}

theorem windowSeconds?_pos (h : windowSeconds? w = some n) : 0 < n := by
  unfold windowSeconds? at h
  split at h <;> cases h <;> decide

/-- The run lemma, by induction on what is still to come: each decision sees what was there, those
executed before it, and itself. -/
theorem decisionsOf_sees (py : Python) (handler : DecisionHandler) (hw : windowSeconds? w = some n)
    (h : Holds velocity server done) (hrenewed : Renewed velocity server) (hpaced : Paced n (done ++ attempts))
    (hlive : ∀ a ∈ attempts, a.elapsed < keyTtlSeconds) (hk : k < attempts.length) :
    ∃ gathered result,
      (decisionsOf py handler velocity server attempts)[k]? = some (gathered, result) ∧
      seenCount gathered w = .ok (.int ((done.length + k + 1 : Nat) : Int)) ∧
      seenSum gathered w = .ok (.int (volume (done ++ attempts.take (k + 1)))) := by
  induction attempts generalizing server done k with
  | nil => simp at hk
  | cons a rest ih =>
    have hpasses := hpaced.elapsed a (List.mem_append_right _ List.mem_cons_self)
    have hholds := h.elapse hrenewed hpasses (hlive a List.mem_cons_self)
    have hlargest : (n : ℚ) ≤ largestWindowSeconds := by exact_mod_cast windowSeconds?_le hw
    obtain ⟨server', window, hgather, hholds', hrenewed', hshows⟩ :=
      hholds.gather py (fun b hb => lt_of_lt_of_le (hpaced.clock b hb) hlargest)
        hpaced.ref hpaced.fits.1 hpaced.fits.2 hpaced.room
    rw [decisionsOf, hgather]
    cases k with
    | zero =>
      have hclocks : ∀ b ∈ done ++ [a], a.now.timestamp - b.now.timestamp < n := by
        intro b hb
        rcases List.mem_append.mp hb with hb | hb
        · exact hpaced.clock b hb
        · rw [List.mem_singleton.mp hb, sub_self]
          exact_mod_cast windowSeconds?_pos hw
      have hcount := hshows.seenCount hw hclocks
      have hsum := hshows.seenSum hw hclocks
      rw [List.length_append, List.length_singleton] at hcount
      exact ⟨_, _, rfl, hcount, hsum⟩
    | succ k =>
      have hassoc : done ++ a :: rest = (done ++ [a]) ++ rest := by simp
      obtain ⟨gathered, result, hget, hcount, hsum⟩ := ih hholds' hrenewed' (hassoc ▸ hpaced)
        (fun b hb => hlive b (List.mem_cons_of_mem _ hb)) (Nat.lt_of_succ_lt_succ hk)
      refine ⟨gathered, result, hget, ?_, ?_⟩
      · rw [List.length_append, List.length_singleton] at hcount
        rw [hcount]
        congr 3
        omega
      · rw [hsum, List.take_succ_cons, List.append_assoc]
        rfl

/-- Before the first decision of a customer, it does not matter how much time passes. -/
theorem decisionsOf_cons_elapse (a : Attempt) (rest : List Attempt) :
    decisionsOf py handler velocity server (a :: rest) =
      decisionsOf py handler velocity (server.elapse a.elapsed) ({ a with elapsed := 0 } :: rest) := by
  rw [decisionsOf, decisionsOf]
  simp only [Server.elapse, add_zero]

theorem NoHistory.elapse (h : NoHistory velocity server) (hseconds : 0 ≤ seconds) :
    NoHistory velocity (server.elapse seconds) := by
  have hgone {key : String} (hkey : server.find? key = none) :
      (server.elapse seconds).find? key = none := by
    rw [Server.find?_elapse server key hseconds, hkey, Option.filter_none]
  exact ⟨hgone h.members, hgone h.amounts, hgone h.aggregates⟩

theorem decisionsOf_evaluate {k : Nat} {gathered : Gathered}
    {result : Except Raised (Decision × Dict String Value)}
    (h : (decisionsOf py handler velocity server attempts)[k]? = some (gathered, result)) :
    ∃ a ∈ attempts, result = handler.evaluate py a.store a.transaction gathered a.now := by
  induction attempts generalizing server k with
  | nil => simp [decisionsOf] at h
  | cons a rest ih =>
    rw [decisionsOf] at h
    cases k with
    | zero =>
      cases h
      exact ⟨a, List.mem_cons_self, rfl⟩
    | succ k =>
      obtain ⟨b, hb, hresult⟩ := ih h
      exact ⟨b, List.mem_cons_of_mem _ hb, hresult⟩

theorem length_decisionsOf :
    (decisionsOf py handler velocity server attempts).length = attempts.length := by
  induction attempts generalizing server with
  | nil => rfl
  | cons a rest ih => rw [decisionsOf, List.length_cons, ih, List.length_cons]

theorem allowed_evaluate {rule : CompiledRule} {T : Nat} {count : Nat}
    (hrules : handler.ruleset.rules = [rule]) (hstate : rule.state = .active)
    (hseverity : rule.severity = .block) (htree : rule.tree = overThreshold w T)
    (hcount : seenCount gathered w = .ok (.int count)) :
    Allowed (handler.evaluate py store transaction gathered now) = decide (count ≤ T) := by
  obtain ⟨steps, hrun⟩ :=
    run_overThreshold (buildFacts transaction gathered store.namedLists) py now T hcount
  obtain ⟨decision, hdecide, houtcome⟩ :=
    decide_single py store.fallbackPolicy hrules hstate hseverity (htree ▸ hrun)
  have hevaluate : handler.evaluate py store transaction gathered now =
      .ok (decision, buildFacts transaction gathered store.namedLists) := by
    rw [DecisionHandler.evaluate]
    exact bind_eq_ok.mpr ⟨decision, hdecide, rfl⟩
  rw [hevaluate, Allowed]
  refine decide_eq_decide.mpr (houtcome.trans ?_)
  rw [decide_eq_false_iff_not, not_lt, Nat.cast_le]

theorem countP_lt_range (N T : Nat) :
    (List.range N).countP (fun k => decide (k + 1 ≤ T)) = min N T := by
  induction N with
  | zero => simp
  | succ N ih =>
    rw [List.range_succ, List.countP_append, ih, List.countP_singleton]
    split
    · have := of_decide_eq_true ‹_›
      omega
    · have : ¬ N + 1 ≤ T := fun h => ‹¬ _› (decide_eq_true h)
      omega

/-- **Velocity thresholds are exact.** The `k`-th decision sees `k` transactions and the sum of their
amounts, so a threshold rule matches it, in whatever rule set, exactly when `k` is over `T`; and
alone, as an active block rule, it lets exactly `T` of them through. -/
theorem velocity_exact (py : Python) (handler : DecisionHandler) (hw : windowSeconds? w = some n)
    (hnew : NoHistory velocity server) (hpaced : Paced n attempts)
    (hlive : ∀ a ∈ attempts.tail, a.elapsed < keyTtlSeconds) :
    (∀ k < attempts.length, ∃ gathered result,
      (decisionsOf py handler velocity server attempts)[k]? = some (gathered, result) ∧
      seenCount gathered w = .ok (.int ((k + 1 : Nat) : Int)) ∧
      seenSum gathered w = .ok (.int (volume (attempts.take (k + 1)))) ∧
      ∀ facts now (T : Nat), ∃ steps,
        (Interpreter.run ⟨facts, build py gathered.provider now⟩ maxSteps (overThreshold w T)).run 0 =
          (.ok (decide ((T : Int) < (k + 1 : Nat))), steps)) ∧
    ∀ (rule : CompiledRule) (T : Nat), handler.ruleset.rules = [rule] → rule.state = .active →
      rule.severity = .block → rule.tree = overThreshold w T →
      ((decisionsOf py handler velocity server attempts).filter fun d => Allowed d.2).length =
        min attempts.length T := by
  have hsees : ∀ k < attempts.length, ∃ gathered result,
      (decisionsOf py handler velocity server attempts)[k]? = some (gathered, result) ∧
      seenCount gathered w = .ok (.int ((k + 1 : Nat) : Int)) ∧
      seenSum gathered w = .ok (.int (volume (attempts.take (k + 1)))) := by
    intro k hk
    cases attempts with
    | nil => simp at hk
    | cons a rest =>
      have hnew' := hnew.elapse (hpaced.elapsed a List.mem_cons_self)
      have hlive' : ∀ b ∈ { a with elapsed := 0 } :: rest, b.elapsed < keyTtlSeconds := by
        intro b hb
        rcases List.mem_cons.mp hb with rfl | hb
        · exact Nat.cast_pos.mpr (by decide)
        · exact hlive b hb
      obtain ⟨gathered, result, hget, hcount, hsum⟩ :=
        decisionsOf_sees py handler hw hnew'.holds hnew'.renewed hpaced.restarted
          hlive' hk
      rw [decisionsOf_cons_elapse]
      rw [List.length_nil, Nat.zero_add] at hcount
      exact ⟨gathered, result, hget, hcount, hsum⟩
  refine ⟨fun k hk => ?_, fun rule T hrules hstate hseverity htree => ?_⟩
  · obtain ⟨gathered, result, hget, hcount, hsum⟩ := hsees k hk
    exact ⟨gathered, result, hget, hcount, hsum,
      fun facts now T => run_overThreshold facts py now T hcount⟩
  have hallowed : (decisionsOf py handler velocity server attempts).map (fun d => Allowed d.2) =
      (List.range attempts.length).map fun k => decide (k + 1 ≤ T) := by
    refine List.ext_getElem? fun k => ?_
    by_cases hk : k < attempts.length
    · obtain ⟨gathered, result, hget, hcount, -⟩ := hsees k hk
      obtain ⟨a, -, rfl⟩ := decisionsOf_evaluate hget
      rw [List.getElem?_map, hget, List.getElem?_map, List.getElem?_range hk]
      exact congrArg some (allowed_evaluate hrules hstate hseverity htree hcount)
    · rw [List.getElem?_eq_none, List.getElem?_eq_none]
      · simpa using hk
      · simpa [length_decisionsOf] using hk
  calc ((decisionsOf py handler velocity server attempts).filter fun d => Allowed d.2).length
      = ((decisionsOf py handler velocity server attempts).map fun d => Allowed d.2).countP id := by
        rw [List.countP_map, ← List.countP_eq_length_filter]
        rfl
    _ = (List.range attempts.length).countP fun k => decide (k + 1 ≤ T) := by
        rw [hallowed, List.countP_map]
        rfl
    _ = min attempts.length T := countP_lt_range _ _

end

/-! Two decisions, the second on the slower clock, under a threshold of one. -/

def clockPython : Python :=
  { Python.reading "velocity_count(window='1h') > 1" (overThreshold "1h" 1) with
    repr := fun value =>
      match value with
      | .float x => toString x.num ++ ".0"
      | value => value.typeName
    float := fun text => (decimal? (String.ofList (text.toList.takeWhile (· ≠ '.')))).map (·) }

def thresholdHandler : DecisionHandler where
  tenantId := "tnt_1"
  ruleset := .ofRules 1
    [{ id := "rul_1", name := "Two in an hour", tree := overThreshold "1h" 1, severity := .block }]
  salt := "salt"

def sampleVelocity : RedisVelocity := ⟨"tnt_1", "c_1"⟩

def transferOf (ref : String) (amount : Int) : Transaction :=
  { transactionRef := ref, customerRef := "c_1", amountMinor := amount, currency := "NGN" }

def aheadAttempt : Attempt := { transaction := transferOf "tx_1" 700, now := ⟨10000000, 0⟩ }

def behindAttempt : Attempt :=
  { elapsed := 1, transaction := transferOf "tx_2" 300, now := ⟨0, 0⟩ }

theorem noHistory_empty (velocity : RedisVelocity) : NoHistory velocity {} := ⟨rfl, rfl, rfl⟩

theorem velocity_exact_disordered :
    (∃ gathered result,
      (decisionsOf clockPython thresholdHandler sampleVelocity {}
        [aheadAttempt, behindAttempt])[1]? = some (gathered, result) ∧
      seenCount gathered "1h" = .ok (.int 2) ∧ seenSum gathered "1h" = .ok (.int 1000)) ∧
    ((decisionsOf clockPython thresholdHandler sampleVelocity {}
      [aheadAttempt, behindAttempt]).filter fun d => Allowed d.2).length = 1 := by
  have hpaced : Paced 3600 [aheadAttempt, behindAttempt] :=
    ⟨by decide, by decide, by decide +kernel, by decide, by decide, by decide +kernel⟩
  have hlive : ∀ a ∈ [aheadAttempt, behindAttempt].tail, a.elapsed < keyTtlSeconds := by
    decide +kernel
  obtain ⟨hsees, hallowed⟩ := velocity_exact (w := "1h") clockPython thresholdHandler rfl
    (noHistory_empty sampleVelocity) hpaced hlive
  obtain ⟨gathered, result, hget, hcount, hsum, -⟩ := hsees 1 (by decide)
  exact ⟨⟨gathered, result, hget, hcount, hsum⟩, hallowed _ 1 rfl rfl rfl rfl⟩

/-! An amount no counter takes, and a decision after the keys of the one before ran out. -/

def largeAttempt : Attempt := { transaction := transferOf "tx_1" (2 ^ 63), now := ⟨0, 0⟩ }

def lateAttempt : Attempt := { behindAttempt with elapsed := keyTtlSeconds }

theorem velocity_inexact :
    NoHistory sampleVelocity {} ∧
    ((decisionsOf clockPython thresholdHandler sampleVelocity {} [largeAttempt]).filter
      fun d => Allowed d.2).length ≠ min [largeAttempt].length 1 ∧
    ([aheadAttempt, lateAttempt].map Attempt.ref).Nodup ∧
    [aheadAttempt, lateAttempt].Pairwise
      (fun a b => |a.now.timestamp - b.now.timestamp| < (3600 : ℚ)) ∧
    (decisionsOf clockPython thresholdHandler sampleVelocity {}
      [aheadAttempt, lateAttempt])[1]?.map (fun d => seenCount d.1 "1h") ≠
        some (.ok (.int 2)) := by
  refine ⟨noHistory_empty _, by decide +kernel, by decide, by decide +kernel, fun h => ?_⟩
  have hone : (((decisionsOf clockPython thresholdHandler sampleVelocity {}
      [aheadAttempt, lateAttempt])[1]?.map fun d => seenCount d.1 "1h").any fun seen =>
        match seen with
        | .ok value => value.pyEq (.int 1)
        | .error _ => false) = true := by decide +kernel
  rw [h] at hone
  cases hone

end ComplyLayer
