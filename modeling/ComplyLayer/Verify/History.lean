import ComplyLayer.Verify.VelocityThreshold

/-!
# What Redis remembers of a customer

The calls of `record_and_gather` of one customer, in the order their transactions are executed in.
The members and amounts that are left are each the last call of its reference, and the counters
and moments are those of every call, whatever the clocks read and however long the pauses are.
-/

namespace ComplyLayer

open Theory Redis

/-- A call of `record_and_gather`, with the time on the server since the one before. -/
structure RecordCall where
  elapsed : ℚ := 0
  moment : ℚ
  recorded : Recorded

namespace RecordCall

def ref (c : RecordCall) : String := c.recorded.transactionRef

def amount (c : RecordCall) : Int := c.recorded.amountMinor

def text (c : RecordCall) : String := amountText c.recorded.amountMinor c.recorded.transactionType

end RecordCall

/-- Execute the calls in order: the server they leave, and what each returns. -/
def recordAll (py : Python) (velocity : RedisVelocity) (server : Server) :
    List RecordCall → Server × List (Except String Window)
  | [] => (server, [])
  | c :: rest =>
    let (server', result) :=
      velocity.recordAndGather py (server.elapse c.elapsed) c.recorded c.moment
    let (last, results) := recordAll py velocity server' rest
    (last, result :: results)

/-- The last call of each reference. -/
def latest (calls : List RecordCall) : Dict String RecordCall :=
  .ofList (calls.map fun c => (c.ref, c))

/-- The counters and moments after the calls. -/
def aggregatesAfter (py : Python) (calls : List RecordCall) : Dict String String :=
  calls.foldl (fun fields c => RedisVelocity.recordedAggregates py c.moment c.recorded fields) ∅

/-- The members and the amounts are those of the last calls of their references. -/
def AreLatest (scores : Dict String ℚ) (amounts : Dict String String) (done : List RecordCall) :
    Prop :=
  ∀ ref score, scores.get? ref = some score → ∃ c, (latest done).get? ref = some c ∧
    score = c.moment ∧ amounts.get? ref = some c.text

/-- What the server holds of the calls so far. -/
structure Remembers (py : Python) (velocity : RedisVelocity) (server : Server)
    (done : List RecordCall) : Prop where
  window : ∃ scores amounts, server.sortedSet? velocity.membersKey = some scores ∧
    server.hash? velocity.amountsKey = some amounts ∧ AreLatest scores amounts done
  deadlines : (server.find? velocity.membersKey).map Entry.deadline =
    (server.find? velocity.amountsKey).map Entry.deadline
  aggregates : server.hash? velocity.aggregatesKey = some (aggregatesAfter py done)
  lasting : server.deadline? velocity.aggregatesKey = none

/-- No member is trimmed before the calls are over, and no key runs out. -/
structure Close (calls : List RecordCall) : Prop where
  clocks : calls.Pairwise fun a b => b.moment - a.moment < (largestWindowSeconds : ℚ)
  pauses : ∀ c ∈ calls, c.elapsed < keyTtlSeconds

/-- Every reference so far is a member. -/
def Full (velocity : RedisVelocity) (server : Server) (done : List RecordCall) : Prop :=
  ∀ scores, server.sortedSet? velocity.membersKey = some scores → ∀ b ∈ done, b.ref ∈ scores.keys

/-- What a call returns after the calls of `done`. -/
structure Returns (py : Python) (done : List RecordCall) (c : RecordCall)
    (result : Except String Window) : Prop where
  window : RedisVelocity.CountersTake (aggregatesAfter py done) c.recorded → ∃ scores amounts,
    AreLatest scores amounts (done ++ [c]) ∧
    result = .ok (windowOf py c.moment (rangeFrom scores (c.moment - largestWindowSeconds))
      amounts (aggregatesAfter py (done ++ [c])))
  failed : ¬ RedisVelocity.CountersTake (aggregatesAfter py done) c.recorded →
    ∃ message, result = .error message

/-- The window of the call has every reference so far, unless it was cut. -/
def Complete (done : List RecordCall) (c : RecordCall) (result : Except String Window) : Prop :=
  ∀ window, result = .ok window → window.truncated = false →
    ∀ b ∈ done ++ [c], b.ref ∈ window.entries.map WindowEntry.member

section
variable {py : Python} {velocity : RedisVelocity} {server : Server} {done calls : List RecordCall}
  {c : RecordCall} {seconds : ℚ}

theorem Close.concat (h : Close (done ++ [c])) : Close done ∧ c.elapsed < keyTtlSeconds ∧
    ∀ b ∈ done, c.moment - b.moment < largestWindowSeconds := by
  obtain ⟨hdone, -, hlast⟩ := List.pairwise_append.mp h.clocks
  exact ⟨⟨hdone, fun b hb => h.pauses b (List.mem_append_left _ hb)⟩,
    h.pauses c (List.mem_append_right _ (List.mem_singleton_self c)),
    fun b hb => hlast b hb c (List.mem_singleton_self c)⟩

theorem latest_concat (done : List RecordCall) (c : RecordCall) :
    latest (done ++ [c]) = (latest done).set c.ref c := by
  rw [latest, List.map_append, Dict.ofList, Dict.update, List.foldl_append]
  rfl

theorem aggregatesAfter_concat (py : Python) (done : List RecordCall) (c : RecordCall) :
    aggregatesAfter py (done ++ [c]) =
      RedisVelocity.recordedAggregates py c.moment c.recorded (aggregatesAfter py done) := by
  rw [aggregatesAfter, List.foldl_append]
  rfl

theorem mem_of_latest {calls : List RecordCall} (h : (latest calls).get? ref = some c) :
    c ∈ calls ∧ c.ref = ref := Dict.get?_index h

theorem NoHistory.remembers (py : Python) (h : NoHistory velocity server) :
    Remembers py velocity server [] where
  window := by
    refine ⟨∅, ∅, ?_, ?_, fun ref score hget => by cases hget⟩
    · rw [Server.sortedSet?, h.members]
      rfl
    · rw [Server.hash?, h.amounts]
      rfl
  deadlines := by rw [h.members, h.amounts]
  aggregates := by
    rw [Server.hash?, h.aggregates]
    rfl
  lasting := by
    rw [Server.deadline?, h.aggregates]
    rfl

/-- As time passes, the members and the amounts go together, and the counters stay. -/
theorem Remembers.elapse (h : Remembers py velocity server done) (hseconds : 0 ≤ seconds) :
    Remembers py velocity (server.elapse seconds) done := by
  have hmembers := Server.find?_elapse server velocity.membersKey hseconds
  have hamounts := Server.find?_elapse server velocity.amountsKey hseconds
  have haggregates : (server.elapse seconds).find? velocity.aggregatesKey =
      server.find? velocity.aggregatesKey :=
    Server.find?_elapse_of_lt hseconds fun deadline hd => by
      rw [h.lasting] at hd
      cases hd
  have hcounters : (server.elapse seconds).hash? velocity.aggregatesKey =
      some (aggregatesAfter py done) ∧
      (server.elapse seconds).deadline? velocity.aggregatesKey = none := by
    rw [Server.hash?_congr haggregates, Server.deadline?, haggregates]
    exact ⟨h.aggregates, h.lasting⟩
  have hgone (hm : (server.elapse seconds).find? velocity.membersKey = none)
      (ha : (server.elapse seconds).find? velocity.amountsKey = none) :
      Remembers py velocity (server.elapse seconds) done := by
    refine ⟨⟨∅, ∅, ?_, ?_, fun ref score hget => by cases hget⟩, ?_, hcounters.1, hcounters.2⟩
    · rw [Server.sortedSet?, hm]
      rfl
    · rw [Server.hash?, ha]
      rfl
    · rw [hm, ha]
  have hdeadlines := h.deadlines
  cases hm : server.find? velocity.membersKey with
  | none =>
    cases ha : server.find? velocity.amountsKey with
    | none =>
      rw [hm] at hmembers
      rw [ha] at hamounts
      exact hgone hmembers hamounts
    | some entry' =>
      rw [hm, ha] at hdeadlines
      cases hdeadlines
  | some entry =>
    cases ha : server.find? velocity.amountsKey with
    | none =>
      rw [hm, ha] at hdeadlines
      cases hdeadlines
    | some entry' =>
      rw [hm, ha] at hdeadlines
      have hdeadline : entry.deadline = entry'.deadline := Option.some.inj hdeadlines
      rw [hm, Option.filter_some] at hmembers
      rw [ha, Option.filter_some, ← hdeadline] at hamounts
      by_cases hlive : (entry.deadline.all fun deadline => server.now + seconds < deadline) = true
      · rw [if_pos hlive, ← hm] at hmembers
        rw [if_pos hlive, ← ha] at hamounts
        refine ⟨?_, ?_, hcounters.1, hcounters.2⟩
        · rw [Server.sortedSet?_congr hmembers, Server.hash?_congr hamounts]
          exact h.window
        · rw [hmembers, hamounts]
          exact h.deadlines
      · rw [if_neg hlive] at hmembers hamounts
        exact hgone hmembers hamounts

theorem Full.elapse (h : Full velocity server done) (hrenewed : Renewed velocity server)
    (hseconds : 0 ≤ seconds) (hlive : seconds < keyTtlSeconds) :
    Full velocity (server.elapse seconds) done := by
  have hmembers : (server.elapse seconds).find? velocity.membersKey =
      server.find? velocity.membersKey :=
    Server.find?_elapse_of_lt hseconds fun deadline hd => by linarith [hrenewed.members deadline hd]
  intro scores hscores
  rw [Server.sortedSet?_congr hmembers] at hscores
  exact h scores hscores

/-- What a window shows of the members read. -/
theorem members_windowOf (py : Python) (moment : ℚ) (members : List (String × ℚ))
    (amounts aggregates : Dict String String) :
    (windowOf py moment members amounts aggregates).entries.map WindowEntry.member =
      (members.drop (members.length - maxMembersFetched)).map Prod.fst := by
  rw [windowOf_entries, List.map_map]
  rfl

/-- One call: what is remembered becomes what is remembered of it too. -/
theorem Remembers.record (h : Remembers py velocity server done) (c : RecordCall) :
    ∃ server' result, velocity.recordAndGather py server c.recorded c.moment = (server', result) ∧
      Remembers py velocity server' (done ++ [c]) ∧ Renewed velocity server' ∧
      Returns py done c result ∧
      (Close (done ++ [c]) → Full velocity server done →
        Full velocity server' (done ++ [c]) ∧ Complete done c result) := by
  obtain ⟨scores, amounts, hscores, htexts, hlatest⟩ := h.window
  obtain ⟨server', result, hfetch, hnow, hm, ha, hg, hok, herror⟩ :=
    RedisVelocity.recordAndGather_eq py c.recorded c.moment hscores htexts h.aggregates
  let scores' := RedisVelocity.recordedMembers scores c.moment c.recorded
  have hget' (ref : String) (href : ref ≠ c.ref) : scores'.get? ref =
      (scores.filter fun entry =>
        ¬ (0 ≤ entry.2 ∧ entry.2 ≤ c.moment - largestWindowSeconds)).get? ref :=
    Dict.get?_set_of_ne href _ _
  have hself : scores'.get? c.ref = some c.moment := Dict.get?_set_self _ _ _
  have hlatest' : AreLatest scores' (amounts.set c.ref c.text) (done ++ [c]) := by
    intro ref score hget
    rw [latest_concat]
    by_cases href : ref = c.ref
    · subst href
      cases hself.symm.trans hget
      exact ⟨c, Dict.get?_set_self _ _ _, rfl, Dict.get?_set_self _ _ _⟩
    · rw [hget' ref href] at hget
      have hkept := List.mem_filter.mp ((Dict.get?_eq_some_iff _).mp hget)
      obtain ⟨b, hb, hscore, htext⟩ := hlatest ref score ((Dict.get?_eq_some_iff _).mpr hkept.1)
      refine ⟨b, ?_, hscore, ?_⟩
      · rw [Dict.get?_set_of_ne href]
        exact hb
      · rw [Dict.get?_set_of_ne href]
        exact htext
  -- A member that is there and recent enough stays, and is read.
  have hread (hclose : Close (done ++ [c])) (hfull : Full velocity server done) :
      ∀ b ∈ done ++ [c], ∃ score, (b.ref, score) ∈ scores'.entries ∧
        c.moment - largestWindowSeconds ≤ score := by
    intro b hb
    by_cases href : b.ref = c.ref
    · rw [href]
      exact ⟨c.moment, (Dict.get?_eq_some_iff _).mp hself, by simp⟩
    · have hdone : b ∈ done := by
        rcases List.mem_append.mp hb with hb | hb
        · exact hb
        · exact absurd (congrArg RecordCall.ref (List.mem_singleton.mp hb)) href
      obtain ⟨⟨ref, score⟩, hentry, hkey⟩ := List.mem_map.mp (hfull scores hscores b hdone)
      cases hkey
      obtain ⟨d, hd, rfl, -⟩ := hlatest _ score ((Dict.get?_eq_some_iff _).mpr hentry)
      have hrecent := hclose.concat.2.2 d (mem_of_latest hd).1
      have hkept : (b.ref, d.moment) ∈ (scores.filter fun entry =>
          ¬ (0 ≤ entry.2 ∧ entry.2 ≤ c.moment - largestWindowSeconds)).entries :=
        List.mem_filter.mpr ⟨hentry, decide_eq_true fun htrimmed => by linarith [htrimmed.2]⟩
      have hget := (Dict.get?_eq_some_iff _).mpr hkept
      rw [← hget' _ href] at hget
      exact ⟨d.moment, (Dict.get?_eq_some_iff _).mp hget, by linarith⟩
  rw [← aggregatesAfter_concat] at hg hok
  have hscores' := Server.sortedSet?_of_find? hm
  refine ⟨server', result, hfetch, ⟨⟨_, _, hscores', Server.hash?_of_find? ha, hlatest'⟩, ?_,
    Server.hash?_of_find? hg, Server.deadline?_of_find? hg⟩, ⟨?_, ?_, Server.deadline?_of_find? hg⟩,
    ⟨fun htake => ⟨_, _, hlatest', hok htake⟩, herror⟩, fun hclose hfull => ⟨?_, ?_⟩⟩
  · rw [hm, ha]
    rfl
  · intro deadline hd
    rw [Server.deadline?_of_find? hm] at hd
    cases hd
    rw [hnow]
  · intro deadline hd
    rw [Server.deadline?_of_find? ha] at hd
    cases hd
    rw [hnow]
  · intro s hs b hb
    cases hscores'.symm.trans hs
    obtain ⟨score, hentry, -⟩ := hread hclose hfull b hb
    exact List.mem_map_of_mem hentry
  · intro window hwindow hwhole b hb
    have htake : RedisVelocity.CountersTake (aggregatesAfter py done) c.recorded := by
      by_contra htake
      obtain ⟨message, hmessage⟩ := herror htake
      cases hmessage.symm.trans hwindow
    cases (hok htake).symm.trans hwindow
    rw [windowOf_truncated, decide_eq_false_iff_not, not_lt] at hwhole
    rw [members_windowOf, Nat.sub_eq_zero_of_le hwhole, List.drop_zero]
    obtain ⟨score, hentry, hrecent⟩ := hread hclose hfull b hb
    exact List.mem_map.mpr ⟨_, (perm_sortBy _ _).mem_iff.mpr
      (List.mem_filter.mpr ⟨hentry, decide_eq_true hrecent⟩), rfl⟩

/-- The run lemma, by induction on what is still to come. -/
theorem recordAll_remembers (h : Remembers py velocity server done)
    (hrenewed : Renewed velocity server) (hfull : Close done → Full velocity server done)
    (helapsed : ∀ c ∈ calls, 0 ≤ c.elapsed) :
    Remembers py velocity (recordAll py velocity server calls).1 (done ++ calls) ∧
      ∀ before c after, calls = before ++ c :: after → ∃ result,
        (recordAll py velocity server calls).2[before.length]? = some result ∧
        Returns py (done ++ before) c result ∧
        (Close ((done ++ before) ++ [c]) → Complete (done ++ before) c result) := by
  induction calls generalizing server done with
  | nil =>
    rw [List.append_nil]
    exact ⟨h, fun before c after hnil => by simp at hnil⟩
  | cons c rest ih =>
    have hpasses := helapsed c List.mem_cons_self
    obtain ⟨server', result, hfetch, hremembers, hrenewed', hreturns, hfull'⟩ :=
      (h.elapse hpasses).record c
    have hfull'' (hclose : Close (done ++ [c])) :=
      hfull' hclose ((hfull hclose.concat.1).elapse hrenewed hpasses hclose.concat.2.1)
    obtain ⟨hlast, hresults⟩ := ih hremembers hrenewed' (fun hclose => (hfull'' hclose).1)
      fun b hb => helapsed b (List.mem_cons_of_mem _ hb)
    have hassoc (l : List RecordCall) : done ++ c :: l = (done ++ [c]) ++ l := by simp
    rw [recordAll, hfetch, hassoc]
    refine ⟨hlast, fun before d after heq => ?_⟩
    cases before with
    | nil =>
      cases heq
      refine ⟨result, rfl, ?_, ?_⟩
      · rw [List.append_nil]
        exact hreturns
      · rw [List.append_nil]
        exact fun hclose => (hfull'' hclose).2
    | cons b before =>
      cases heq
      obtain ⟨result', hget, hreturns'⟩ := hresults before d after rfl
      rw [hassoc]
      exact ⟨result', hget, hreturns'⟩

/-- A call that returns has read the counters with its own transaction in them. -/
theorem Returns.window_eq {window : Window} (h : Returns py done c (.ok window)) :
    window.now = c.moment ∧
      window.aggregates = parseAggregates py (aggregatesAfter py (done ++ [c])) := by
  have htake : RedisVelocity.CountersTake (aggregatesAfter py done) c.recorded := by
    by_contra htake
    obtain ⟨message, herror⟩ := h.failed htake
    cases herror
  obtain ⟨scores, amounts, -, hwindow⟩ := h.window htake
  cases hwindow
  exact ⟨rfl, rfl⟩

/-! ## The counters -/

/-- A counter that each call increases by its own amount. -/
theorem counter?_aggregatesAfter (py : Python) {name : String} (increment : RecordCall → Int)
    (hstep : ∀ (c : RecordCall) fields n, counter? (fields.get? name) = some n →
      counter? ((RedisVelocity.recordedAggregates py c.moment c.recorded fields).get? name) =
        some (if Fits (increment c) ∧ Fits (n + increment c) then n + increment c else n))
    (calls : List RecordCall) :
    counter? ((aggregatesAfter py calls).get? name) = some (counted 0 (calls.map increment)) := by
  induction calls using List.reverseRecOn with
  | nil => rfl
  | append_singleton calls c ih =>
    rw [aggregatesAfter_concat, List.map_append, List.map_singleton, counted_concat]
    exact hstep c _ _ ih

theorem counter?_lifetimeCount (py : Python) (calls : List RecordCall) :
    counter? ((aggregatesAfter py calls).get? "lifetime_count") =
      some (counted 0 (calls.map fun _ => 1)) :=
  counter?_aggregatesAfter py _ (fun c fields n h => by
    rw [RedisVelocity.get?_recordedAggregates (by decide) (by decide), get?_added_of_ne (by decide)]
    exact counter?_added h 1) calls

theorem counter?_lifetimeVolume (py : Python) (calls : List RecordCall) :
    counter? ((aggregatesAfter py calls).get? "lifetime_volume_minor") =
      some (counted 0 (calls.map RecordCall.amount)) :=
  counter?_aggregatesAfter py _ (fun c fields n h => by
    rw [RedisVelocity.get?_recordedAggregates (by decide) (by decide)]
    refine counter?_added ?_ c.amount
    rw [get?_added_of_ne (by decide)]
    exact h) calls

/-- Until a counter is full, it counts the calls. -/
theorem counted_calls (h : calls.length < 2 ^ 63) :
    counted 0 (calls.map fun _ => 1) = calls.length := by
  have hones : (calls.map fun _ => (1 : Int)).sum = calls.length := by simp
  rw [counted_eq_sum (le_refl 0), zero_add, hones]
  · intro i hi
    obtain ⟨c, -, rfl⟩ := List.mem_map.mp hi
    decide
  · rw [hones]
    omega

/-- The counters take a call while their sums fit. -/
theorem countersTake_of_fits (py : Python) (hlength : done.length + 1 < 2 ^ 63)
    (hamounts : ∀ b ∈ done ++ [c], 0 ≤ b.amount)
    (hvolume : ((done ++ [c]).map RecordCall.amount).sum < 2 ^ 63) :
    RedisVelocity.CountersTake (aggregatesAfter py done) c.recorded := by
  have hlast : 0 ≤ c.amount := hamounts c (List.mem_append_right _ (List.mem_singleton_self c))
  have hpast : ∀ i ∈ done.map RecordCall.amount, 0 ≤ i := by
    intro i hi
    obtain ⟨b, hb, rfl⟩ := List.mem_map.mp hi
    exact hamounts b (List.mem_append_left _ hb)
  have hpastsum : 0 ≤ (done.map RecordCall.amount).sum := List.sum_nonneg hpast
  rw [List.map_append, List.sum_append, List.map_singleton, List.sum_singleton] at hvolume
  have hsum : counted 0 (done.map RecordCall.amount) = (done.map RecordCall.amount).sum := by
    rw [counted_eq_sum (le_refl 0) hpast, zero_add]
    omega
  refine ⟨⟨_, increased_eq_ok (counter?_lifetimeCount py done) (by decide) ?_⟩,
    _, increased_eq_ok (counter?_lifetimeVolume py done) ?_ ?_⟩
  · rw [counted_calls (by omega)]
    constructor <;> omega
  · change Fits c.amount
    constructor <;> omega
  · rw [hsum]
    change Fits (_ + c.amount)
    constructor <;> omega

/-- What is read of a counter is its number. -/
theorem number_of_counter? {fields : Dict String String} {name : String}
    (h : counter? (fields.get? name) = some n) : parseAggregates.number fields name = n := by
  rw [parseAggregates.number]
  cases hget : fields.get? name with
  | none =>
    rw [hget] at h
    cases h
    rfl
  | some text =>
    rw [hget] at h
    obtain ⟨hdecimal, -⟩ := Option.filter_eq_some_iff.mp h
    rw [Option.bind_some, hdecimal]
    rfl

/-! ## The moments -/

theorem get?_lastTransactionAt (py : Python) (done : List RecordCall) (c : RecordCall) :
    (aggregatesAfter py (done ++ [c])).get? "last_transaction_at" =
      some (py.repr (.float c.moment)) := by
  rw [aggregatesAfter_concat]
  exact Dict.get?_set_self _ _ _

theorem get?_firstSeenAt_recorded (py : Python) (moment : ℚ) (t : Recorded)
    (fields : Dict String String) :
    (RedisVelocity.recordedAggregates py moment t fields).get? "first_seen_at" =
      some ((fields.get? "first_seen_at").getD (py.repr (.float moment))) := by
  have hcounted : (added (added fields "lifetime_count" 1) "lifetime_volume_minor"
      t.amountMinor).get? "first_seen_at" = fields.get? "first_seen_at" := by
    rw [get?_added_of_ne (by decide), get?_added_of_ne (by decide)]
  rw [RedisVelocity.recordedAggregates, Dict.get?_set_of_ne (by decide), Dict.contains, hcounted]
  cases hfirst : fields.get? "first_seen_at" with
  | none => exact Dict.get?_set_self _ _ _
  | some text => exact hcounted.trans hfirst

/-- The first moment stays. -/
theorem get?_firstSeenAt (py : Python) (c : RecordCall) (rest : List RecordCall) :
    (aggregatesAfter py (c :: rest)).get? "first_seen_at" = some (py.repr (.float c.moment)) := by
  induction rest using List.reverseRecOn with
  | nil => exact get?_firstSeenAt_recorded py c.moment c.recorded ∅
  | append_singleton rest d ih =>
    rw [← List.cons_append, aggregatesAfter_concat, get?_firstSeenAt_recorded, ih]
    rfl

theorem lastTransactionAt_eq {py : Python} {c : RecordCall} (done : List RecordCall)
    (hread : py.float (py.repr (.float c.moment)) = some c.moment) :
    (parseAggregates py (aggregatesAfter py (done ++ [c]))).lastTransactionAt = c.moment := by
  have hget := get?_lastTransactionAt py done c
  simp only [parseAggregates, parseAggregates.reading, hget, Option.bind_some, hread,
    Option.getD_some]

theorem firstSeenAt_eq {py : Python} {c : RecordCall} (rest : List RecordCall)
    (hread : py.float (py.repr (.float c.moment)) = some c.moment) :
    (parseAggregates py (aggregatesAfter py (c :: rest))).firstSeenAt = c.moment := by
  have hget := get?_firstSeenAt py c rest
  simp only [parseAggregates, parseAggregates.reading, hget, Option.bind_some, hread,
    Option.getD_some]

/-- No call writes another field. -/
theorem get?_aggregatesAfter_of_ne (py : Python) {name : String} (hcount : name ≠ "lifetime_count")
    (hvolume : name ≠ "lifetime_volume_minor") (hfirst : name ≠ "first_seen_at")
    (hlast : name ≠ "last_transaction_at") (calls : List RecordCall) :
    (aggregatesAfter py calls).get? name = none := by
  induction calls using List.reverseRecOn with
  | nil => rfl
  | append_singleton calls c ih =>
    rw [aggregatesAfter_concat, RedisVelocity.get?_recordedAggregates hfirst hlast,
      get?_added_of_ne hvolume, get?_added_of_ne hcount]
    exact ih

end

end ComplyLayer
