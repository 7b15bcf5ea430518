import ComplyLayer.Verify.VelocityThreshold

/-!
# What the cap on a fetch leaves out

A fetch reads the members of the largest window and keeps the newest `maxMembersFetched` of them.
`truncated` records that, and nothing reads it: a count or a sum is taken over what was kept. It is
the one over everything recorded exactly when what was left out contributes nothing to it.
-/

namespace ComplyLayer

open Theory Redis

/-- A call of `velocity_count` or `velocity_sum` with a window and filters. A filter that is
`None` is one that was not given. -/
def callWith (function : Function) (w : Value) (filters : Filters) : Except Raised Value :=
  function [] (.ofList [("window", w), ("min_amount_minor", filters.minAmountMinor),
    ("max_amount_minor", filters.maxAmountMinor), ("transaction_type", filters.transactionType)])

/-- `RuleEvaluationError` is raised. -/
def RaisesEvaluation (seen : Except Raised Value) : Prop := ∃ e, seen = evaluationError e

/-- A rule sees the value, or `RuleEvaluationError` is raised. -/
def ExactOrRaises (seen exact : Except Raised Value) : Prop :=
  (∃ value, exact = .ok value ∧ seen = .ok value) ∨ RaisesEvaluation seen

/-- The window over everything recorded for a customer. -/
def recordedWindow (moment : ℚ) (scores : Dict String ℚ) (amounts : Dict String String) : Window where
  now := moment
  entries := scores.entries.map (entryOf amounts)

/-- What a fetch reads of the recorded members: those of the largest window, oldest first. -/
def readEntries (moment : ℚ) (scores : Dict String ℚ) (amounts : Dict String String) :
    List WindowEntry :=
  (rangeFrom scores (moment - largestWindowSeconds)).map (entryOf amounts)

/-- What it then leaves out: all but the newest. -/
def leftOut (moment : ℚ) (scores : Dict String ℚ) (amounts : Dict String String) :
    List WindowEntry :=
  let read := readEntries moment scores amounts
  read.take (read.length - maxMembersFetched)

variable {py : Python} {velocity : RedisVelocity} {moment : ℚ} {scores : Dict String ℚ}
  {amounts : Dict String String} {filters : Filters}

/-! ## What a fetch returns -/

theorem entries_windowOf_rangeFrom (py : Python) (moment : ℚ) (scores : Dict String ℚ)
    (amounts aggregates : Dict String String) :
    (windowOf py moment (rangeFrom scores (moment - largestWindowSeconds)) amounts
        aggregates).entries =
      (readEntries moment scores amounts).drop
        ((readEntries moment scores amounts).length - maxMembersFetched) := by
  rw [windowOf_entries, readEntries, List.length_map, ← List.map_drop]

theorem read_split (py : Python) (moment : ℚ) (scores : Dict String ℚ)
    (amounts aggregates : Dict String String) :
    leftOut moment scores amounts ++
        (windowOf py moment (rangeFrom scores (moment - largestWindowSeconds)) amounts
          aggregates).entries = readEntries moment scores amounts := by
  rw [entries_windowOf_rangeFrom, leftOut, List.take_append_drop]

theorem mem_recordedWindow {entry : WindowEntry}
    (h : entry ∈ (recordedWindow moment scores amounts).entries) :
    ∃ member ∈ scores.entries, entry.score = member.2 := by
  obtain ⟨member, hmember, rfl⟩ := List.mem_map.mp h
  exact ⟨member, hmember, rfl⟩

/-- What is not read is older than every window. -/
theorem filter_recorded_perm {seconds : Nat} (hseconds : seconds ≤ largestWindowSeconds) :
    ((recordedWindow moment scores amounts).entries.filter
        (Window.yields (moment - seconds) filters)).Perm
      ((readEntries moment scores amounts).filter (Window.yields (moment - seconds) filters)) := by
  have hread : (readEntries moment scores amounts).Perm
      ((scores.entries.filter fun entry => moment - largestWindowSeconds ≤ entry.2).map
        (entryOf amounts)) := (perm_sortBy _ _).map _
  refine List.Perm.trans (.of_eq ?_) (hread.filter _).symm
  rw [recordedWindow, List.filter_map, List.filter_map, List.filter_filter]
  refine congrArg _ (List.filter_congr fun entry _ => ?_)
  by_cases hin : moment - largestWindowSeconds ≤ entry.2
  · simp [hin]
  · have hold : (entryOf amounts entry).score < moment - seconds := by
      have : (seconds : ℚ) ≤ largestWindowSeconds := by exact_mod_cast hseconds
      simp only [entryOf]
      linarith
    simp [Window.yields_of_lt hold]

/-! ## What a call computes from it -/

/-- A method of the provider: a number made of the amounts `_matching` yields. -/
def Measures (window : Window) (method : Nat → Filters → Except Raised Int)
    (measure : List Int → Int) : Prop :=
  ∀ seconds filters, method seconds filters = (do
    let amounts ← window.matching seconds filters
    pure (measure amounts))

theorem count_measures (window : Window) :
    Measures window window.count fun amounts => amounts.length := fun _ _ => rfl

theorem total_measures (window : Window) : Measures window window.total List.sum := fun _ _ => rfl

theorem callWith_velocityFunction (method : Nat → Filters → Except Raised Int) (w : Value)
    (filters : Filters) : callWith (velocityFunction method) w filters =
      windowSeconds w >>= fun seconds => method seconds filters >>= fun n => pure (.int n) := rfl

theorem windowSeconds_raises (h : ∀ seconds, windowSeconds w ≠ .ok seconds)
    (method : Nat → Filters → Except Raised Int) :
    RaisesEvaluation (callWith (velocityFunction method) w filters) := by
  have herror : ∃ e, windowSeconds w = evaluationError e := by
    cases hw : windowSeconds w with
    | ok seconds => exact absurd hw (h seconds)
    | error e =>
      unfold windowSeconds at hw
      split at hw
      · split at hw
        · cases hw
        · exact ⟨_, hw.symm⟩
      · exact ⟨_, hw.symm⟩
  obtain ⟨e, herror⟩ := herror
  exact ⟨e, by rw [callWith_velocityFunction, herror]; rfl⟩

/-- Every comparison the call makes of what is recorded is between numbers. -/
def AllComparable (moment : ℚ) (scores : Dict String ℚ) (amounts : Dict String String)
    (seconds : Nat) (filters : Filters) : Prop :=
  ∀ entry ∈ (recordedWindow moment scores amounts).entries,
    Window.EntryComparable (moment - seconds) filters entry

/-- The amounts of the entries a call yields, of those left out. -/
def lostAmounts (moment : ℚ) (scores : Dict String ℚ) (amounts : Dict String String)
    (seconds : Nat) (filters : Filters) : List Int :=
  ((leftOut moment scores amounts).filter (Window.yields (moment - seconds) filters)).map
    WindowEntry.amount

/-- The amounts of the entries a call yields, of all the window has. -/
def Window.yielded (window : Window) (seconds : Nat) (filters : Filters) : List Int :=
  (window.entries.filter (Window.yields (window.now - seconds) filters)).map WindowEntry.amount

theorem yielded_recorded_perm (py : Python) (aggregates : Dict String String) {seconds : Nat}
    (hseconds : seconds ≤ largestWindowSeconds) :
    ((recordedWindow moment scores amounts).yielded seconds filters).Perm
      (lostAmounts moment scores amounts seconds filters ++
        (windowOf py moment (rangeFrom scores (moment - largestWindowSeconds)) amounts
          aggregates).yielded seconds filters) := by
  have hperm : (((recordedWindow moment scores amounts).entries.filter
      (Window.yields (moment - seconds) filters)).map WindowEntry.amount).Perm _ :=
    (filter_recorded_perm hseconds).map WindowEntry.amount
  rw [← read_split py moment scores amounts aggregates, List.filter_append,
    List.map_append] at hperm
  exact hperm

theorem mem_read_recorded {entry : WindowEntry} (h : entry ∈ readEntries moment scores amounts) :
    entry ∈ (recordedWindow moment scores amounts).entries := by
  obtain ⟨member, hmember, rfl⟩ := List.mem_map.mp h
  have hmem := (perm_sortBy _ _).mem_iff.mp hmember
  exact List.mem_map_of_mem (List.mem_filter.mp hmem).1

/-- A number seen is the one over everything recorded exactly when it does not change by what was
left out. -/
theorem exactOrRaises_iff {seconds : Nat} {aggregates : Dict String String}
    {method recorded : Nat → Filters → Except Raised Int} {measure : List Int → Int}
    (hw : windowSeconds w = .ok seconds)
    (hmethod : Measures (windowOf py moment (rangeFrom scores (moment - largestWindowSeconds))
      amounts aggregates) method measure)
    (hrecorded : Measures (recordedWindow moment scores amounts) recorded measure) :
    ExactOrRaises (callWith (velocityFunction method) w filters)
        (callWith (velocityFunction recorded) w filters) ↔
      AllComparable moment scores amounts seconds filters ∧
        measure ((windowOf py moment (rangeFrom scores (moment - largestWindowSeconds)) amounts
          aggregates).yielded seconds filters) =
        measure ((recordedWindow moment scores amounts).yielded seconds filters) := by
  let window := windowOf py moment (rangeFrom scores (moment - largestWindowSeconds)) amounts
    aggregates
  have hkept : ∀ entry ∈ window.entries, entry ∈ (recordedWindow moment scores amounts).entries := by
    intro entry hentry
    rw [entries_windowOf_rangeFrom] at hentry
    exact mem_read_recorded (List.mem_of_mem_drop hentry)
  rw [callWith_velocityFunction, callWith_velocityFunction, hw]
  change ExactOrRaises (method seconds filters >>= fun n => pure (.int n))
    (recorded seconds filters >>= fun n => pure (.int n)) ↔ _
  rw [hmethod, hrecorded]
  by_cases hall : AllComparable moment scores amounts seconds filters
  · have hseen : window.matching seconds filters = .ok (window.yielded seconds filters) :=
      Window.matchingFrom_eq_ok fun entry hentry => hall entry (hkept entry hentry)
    have hexact : (recordedWindow moment scores amounts).matching seconds filters =
        .ok ((recordedWindow moment scores amounts).yielded seconds filters) :=
      Window.matchingFrom_eq_ok hall
    rw [hseen, hexact]
    constructor
    · rintro (⟨value, hrecorded, hvalue⟩ | ⟨e, h⟩)
      · cases hrecorded
        exact ⟨hall, Value.int.inj (Except.ok.inj hvalue)⟩
      · cases h
    · rintro ⟨-, hmeasure⟩
      refine .inl ⟨_, rfl, ?_⟩
      rw [← hmeasure]
      rfl
  · have hexact : (recordedWindow moment scores amounts).matching seconds filters = typeError :=
      Window.matchingFrom_eq_typeError hall
    refine iff_of_false (fun h => ?_) fun h => hall h.1
    rcases h with ⟨value, hvalue, -⟩ | ⟨e, h⟩
    · rw [hexact] at hvalue
      cases hvalue
    · by_cases hseen : ∀ entry ∈ window.entries,
          Window.EntryComparable (moment - seconds) filters entry
      · rw [show window.matching seconds filters = _ from Window.matchingFrom_eq_ok hseen] at h
        cases h
      · rw [show window.matching seconds filters = typeError from
          Window.matchingFrom_eq_typeError hseen] at h
        cases h

/-! ## Whole fetches -/

/-- `velocity_count(…)`, of what a fetch returned. -/
def countSeen (result : Except String Window) (w : Value) (filters : Filters) :
    Except Raised Value :=
  callWith (velocityCount (Gathered.ofFetch result).provider) w filters

/-- `velocity_sum(…)`, of what a fetch returned. -/
def sumSeen (result : Except String Window) (w : Value) (filters : Filters) : Except Raised Value :=
  callWith (velocitySum (Gathered.ofFetch result).provider) w filters

/-- A fetch that failed is no number. -/
theorem raiseUnavailable_raises (cause : String) (w : Value) (filters : Filters) :
    RaisesEvaluation
      (callWith (velocityFunction (Gathered.raiseUnavailable cause)) w filters) := by
  by_cases hw : ∃ seconds, windowSeconds w = .ok seconds
  · obtain ⟨seconds, hw⟩ := hw
    exact ⟨_, by rw [callWith_velocityFunction, hw]; rfl⟩
  · exact windowSeconds_raises (fun seconds h => hw ⟨seconds, h⟩) _

theorem windowSeconds_le {w : Value} {seconds : Nat} (h : windowSeconds w = .ok seconds) :
    seconds ≤ largestWindowSeconds := by
  unfold windowSeconds at h
  split at h
  · split at h
    · cases h
      exact windowSeconds?_le ‹_›
    · cases h
  · cases h

theorem count_exact_iff {seconds : Nat} {w : Value} (aggregates : Dict String String)
    (hw : windowSeconds w = .ok seconds) :
    ExactOrRaises
        (countSeen (.ok (windowOf py moment (rangeFrom scores (moment - largestWindowSeconds))
          amounts aggregates)) w filters)
        (callWith (velocityCount (recordedWindow moment scores amounts).provider) w filters) ↔
      AllComparable moment scores amounts seconds filters ∧
        lostAmounts moment scores amounts seconds filters = [] := by
  have hperm : ((recordedWindow moment scores amounts).yielded seconds filters).Perm _ :=
    yielded_recorded_perm py aggregates (windowSeconds_le hw)
  have hlength := hperm.length_eq
  rw [List.length_append] at hlength
  refine (exactOrRaises_iff hw (count_measures _) (count_measures _)).trans
    (and_congr_right fun _ => ?_)
  rw [← List.length_eq_zero_iff]
  constructor
  · intro h
    have := Nat.cast_injective h
    omega
  · intro h
    exact congrArg _ (by omega)

theorem sum_exact_iff {seconds : Nat} {w : Value} (aggregates : Dict String String)
    (hw : windowSeconds w = .ok seconds) :
    ExactOrRaises
        (sumSeen (.ok (windowOf py moment (rangeFrom scores (moment - largestWindowSeconds))
          amounts aggregates)) w filters)
        (callWith (velocitySum (recordedWindow moment scores amounts).provider) w filters) ↔
      AllComparable moment scores amounts seconds filters ∧
        (lostAmounts moment scores amounts seconds filters).sum = 0 := by
  have hperm : ((recordedWindow moment scores amounts).yielded seconds filters).Perm _ :=
    yielded_recorded_perm py aggregates (windowSeconds_le hw)
  have hsum := hperm.sum_eq
  rw [List.sum_append] at hsum
  refine (exactOrRaises_iff hw (total_measures _) (total_measures _)).trans
    (and_congr_right fun _ => ?_)
  constructor
  · intro h
    omega
  · intro h
    omega

/-- **Window counts are exact where the cap leaves nothing of them out.** A call raises where the
fetch failed. Where it returned, the call sees its value over everything recorded, or raises,
exactly when its window is none, or its filters compare with what is recorded and the entries left
out contribute nothing: no entry to a count, nothing in sum to a sum. -/
theorem window_exact_iff (py : Python) (velocity : RedisVelocity) (server : Server) (moment : ℚ)
    (record : Option Recorded) (w : Value) (filters : Filters) :
    (∀ cause, (velocity.fetch py server moment record).2 = .error cause →
      RaisesEvaluation (countSeen (velocity.fetch py server moment record).2 w filters) ∧
      RaisesEvaluation (sumSeen (velocity.fetch py server moment record).2 w filters)) ∧
    ∀ window, (velocity.fetch py server moment record).2 = .ok window → ∃ scores amounts,
      (velocity.fetch py server moment record).1.sortedSet? velocity.membersKey = some scores ∧
      (velocity.fetch py server moment record).1.hash? velocity.amountsKey = some amounts ∧
      (ExactOrRaises (countSeen (.ok window) w filters)
          (callWith (velocityCount (recordedWindow moment scores amounts).provider) w filters) ↔
        ∀ seconds, windowSeconds w = .ok seconds →
          AllComparable moment scores amounts seconds filters ∧
            lostAmounts moment scores amounts seconds filters = []) ∧
      (ExactOrRaises (sumSeen (.ok window) w filters)
          (callWith (velocitySum (recordedWindow moment scores amounts).provider) w filters) ↔
        ∀ seconds, windowSeconds w = .ok seconds →
          AllComparable moment scores amounts seconds filters ∧
            (lostAmounts moment scores amounts seconds filters).sum = 0) := by
  constructor
  · intro cause hfailed
    rw [hfailed]
    exact ⟨raiseUnavailable_raises cause w filters, raiseUnavailable_raises cause w filters⟩
  · intro window hreturned
    obtain ⟨scores, amounts, aggregates, hscores, hamounts, -, rfl⟩ :=
      RedisVelocity.fetch_eq_ok velocity (Prod.ext rfl hreturned)
    refine ⟨scores, amounts, hscores, hamounts, ?_⟩
    by_cases hw : ∃ seconds, windowSeconds w = .ok seconds
    · obtain ⟨seconds, hw⟩ := hw
      have honly {P : Nat → Prop} : (∀ s, windowSeconds w = .ok s → P s) ↔ P seconds := by
        rw [hw]
        exact ⟨fun h => h seconds rfl, fun h s hs => Except.ok.inj hs ▸ h⟩
      rw [honly, honly]
      exact ⟨count_exact_iff aggregates hw, sum_exact_iff aggregates hw⟩
    · have hnone : ∀ seconds, windowSeconds w ≠ .ok seconds := fun seconds h => hw ⟨seconds, h⟩
      have hraises (method : Nat → Filters → Except Raised Int) :
          RaisesEvaluation (callWith (velocityFunction method) w filters) :=
        windowSeconds_raises hnone method
      exact ⟨iff_of_true (.inr (hraises _)) fun seconds h => absurd h (hnone seconds),
        iff_of_true (.inr (hraises _)) fun seconds h => absurd h (hnone seconds)⟩

/-- Nothing is left out of a fetch that reads no more than the cap. -/
theorem lostAmounts_of_length_le {seconds : Nat}
    (h : scores.entries.length ≤ maxMembersFetched) :
    lostAmounts moment scores amounts seconds filters = [] := by
  have hread : (readEntries moment scores amounts).length ≤ maxMembersFetched := by
    rw [readEntries, List.length_map, rangeFrom, (perm_sortBy _ _).length_eq]
    exact (List.length_filter_le _ _).trans h
  rw [lostAmounts, leftOut, Nat.sub_eq_zero_of_le hread, List.take_zero]
  rfl

theorem count_unfiltered {window : Window}
    (h : ∀ entry ∈ window.entries, window.now - (3600 : Nat) ≤ entry.score) :
    callWith (velocityCount window.provider) (.str "1h") {} =
      .ok (.int window.entries.length) := by
  have hmatching : window.matching 3600 {} = .ok (window.entries.map WindowEntry.amount) :=
    Window.matchingFrom_unfiltered h
  have hcount : window.count 3600 {} = .ok (window.entries.length : Int) := by
    rw [Window.count, hmatching, ← List.length_map (f := WindowEntry.amount)]
    rfl
  rw [velocityCount, callWith_velocityFunction]
  exact bind_eq_ok.mpr ⟨3600, rfl, bind_eq_ok.mpr ⟨_, hcount, rfl⟩⟩

/-! A first transaction, which a filter on the amount sees. -/

theorem window_exact_first : ∃ window scores amounts,
    (sampleVelocity.fetch clockPython {} 1000 (some ⟨"tx_1", 700, "transfer"⟩)).2 = .ok window ∧
    (sampleVelocity.fetch clockPython {} 1000 (some ⟨"tx_1", 700, "transfer"⟩)).1.sortedSet?
      sampleVelocity.membersKey = some scores ∧
    ExactOrRaises (countSeen (.ok window) (.str "1h") { minAmountMinor := .int 500 })
      (callWith (velocityCount (recordedWindow 1000 scores amounts).provider) (.str "1h")
        { minAmountMinor := .int 500 }) := by
  have hmembers : ({} : Server).sortedSet? sampleVelocity.membersKey = some ∅ := rfl
  have hamounts : ({} : Server).hash? sampleVelocity.amountsKey = some ∅ := rfl
  have haggregates : ({} : Server).hash? sampleVelocity.aggregatesKey = some ∅ := rfl
  have hcount : increased ((∅ : Dict String String).get? "lifetime_count") 1 = .ok 1 := rfl
  have hvolume : increased ((∅ : Dict String String).get? "lifetime_volume_minor") 700 =
      .ok 700 := rfl
  obtain ⟨server', aggregates', hfetch, -, hm, -⟩ :=
    RedisVelocity.recordAndGather_eq_ok clockPython ⟨"tx_1", 700, "transfer"⟩ 1000 hmembers hamounts
      haggregates hcount hvolume
  rw [RedisVelocity.recordAndGather] at hfetch
  obtain ⟨-, hreturned⟩ := window_exact_iff clockPython sampleVelocity {} 1000
    (some ⟨"tx_1", 700, "transfer"⟩) (.str "1h") { minAmountMinor := .int 500 }
  obtain ⟨scores, amounts, hscores, -, hexact, -⟩ := hreturned _ (congrArg Prod.snd hfetch)
  refine ⟨_, scores, amounts, congrArg Prod.snd hfetch, hscores, hexact.mpr ?_⟩
  have hone : scores = RedisVelocity.recordedMembers ∅ 1000 ⟨"tx_1", 700, "transfer"⟩ := by
    rw [hfetch] at hscores
    exact Option.some.inj (hscores.symm.trans (Server.sortedSet?_of_find? hm))
  intro seconds _
  refine ⟨fun entry _ _ => ⟨.inr rfl, fun _ => .inl rfl⟩, lostAmounts_of_length_le ?_⟩
  rw [hone]
  decide

/-! A customer with one transaction more than the cap, all at one moment. -/

def scoresOf (n : Nat) : Dict String ℚ where
  entries := (List.range n).map fun (k : Nat) => (toString (k : Int), 1000)
  nodup := by
    rw [List.map_map]
    refine List.nodup_range.map fun i j hij => ?_
    have htexts := congrArg decimal? hij
    simp only [Function.comp_apply, decimal?_toString] at htexts
    exact_mod_cast Option.some.inj htexts

theorem mem_scoresOf {n : Nat} (h : entry ∈ (scoresOf n).entries) :
    (∃ k : Int, entry.1 = toString k) ∧ entry.2 = 1000 := by
  obtain ⟨k, -, rfl⟩ := List.mem_map.mp h
  exact ⟨⟨k, rfl⟩, rfl⟩

theorem length_scoresOf (n : Nat) : (scoresOf n).entries.length = n := by
  rw [scoresOf, List.length_map, List.length_range]

def busyScores : Dict String ℚ := scoresOf maxMembersFetched

def busyServer : Server where
  keys key :=
    if key = sampleVelocity.membersKey then some { data := .sortedSet busyScores }
    else if key = sampleVelocity.amountsKey then
      some { data := .hash (busyScores.map fun _ => "100:transfer") }
    else none

def nextRecorded : Recorded := ⟨"tx_1", 100, "transfer"⟩

theorem busy_undercounted : ∃ window scores amounts,
    (sampleVelocity.fetch clockPython busyServer 1000 (some nextRecorded)).2 = .ok window ∧
    (sampleVelocity.fetch clockPython busyServer 1000 (some nextRecorded)).1.sortedSet?
      sampleVelocity.membersKey = some scores ∧
    (sampleVelocity.fetch clockPython busyServer 1000 (some nextRecorded)).1.hash?
      sampleVelocity.amountsKey = some amounts ∧
    window.truncated = true ∧ countSeen (.ok window) (.str "1h") {} = .ok (.int 5000) ∧
    callWith (velocityCount (recordedWindow 1000 scores amounts).provider) (.str "1h") {} =
      .ok (.int 5001) ∧
    ¬ ExactOrRaises (countSeen (.ok window) (.str "1h") {})
      (callWith (velocityCount (recordedWindow 1000 scores amounts).provider) (.str "1h") {}) := by
  have hmembers : busyServer.sortedSet? sampleVelocity.membersKey = some busyScores := rfl
  have hamounts : busyServer.hash? sampleVelocity.amountsKey =
      some (busyScores.map fun _ => "100:transfer") := rfl
  have haggregates : busyServer.hash? sampleVelocity.aggregatesKey = some ∅ := rfl
  have hcount : increased ((∅ : Dict String String).get? "lifetime_count") 1 = .ok 1 := rfl
  have hvolume : increased ((∅ : Dict String String).get? "lifetime_volume_minor") 100 =
      .ok 100 := rfl
  obtain ⟨server', aggregates', hfetch, -, hm, ha, -⟩ :=
    RedisVelocity.recordAndGather_eq_ok clockPython nextRecorded 1000 hmembers hamounts haggregates
      hcount hvolume
  rw [RedisVelocity.recordAndGather] at hfetch
  let scores := RedisVelocity.recordedMembers busyScores 1000 nextRecorded
  have hnew : "tx_1" ∉ busyScores.keys := by
    intro hmem
    obtain ⟨entry, hentry, hkey⟩ := List.mem_map.mp hmem
    obtain ⟨⟨k, hk⟩, -⟩ := mem_scoresOf hentry
    have hdecimal := decimal?_toString k
    have hnone : decimal? "tx_1" = none := by decide
    rw [← hk, hkey, hnone] at hdecimal
    cases hdecimal
  have hentries : scores.entries = busyScores.entries ++ [("tx_1", 1000)] := by
    have hkept : busyScores.filter (fun entry =>
        ¬ (0 ≤ entry.2 ∧ entry.2 ≤ (1000 : ℚ) - largestWindowSeconds)) = busyScores := by
      refine Dict.filter_eq_self fun entry hentry => ?_
      rw [(mem_scoresOf hentry).2]
      exact decide_eq_true (by norm_num [largestWindowSeconds])
    rw [show scores = (busyScores.filter _).set "tx_1" 1000 from rfl, hkept]
    exact Dict.entries_set_of_not_mem hnew 1000
  have hscores : ∀ entry ∈ scores.entries, entry.2 = 1000 := by
    intro entry hentry
    rw [hentries] at hentry
    rcases List.mem_append.mp hentry with hentry | hentry
    · exact (mem_scoresOf hentry).2
    · rw [List.mem_singleton.mp hentry]
  have hlength : scores.entries.length = 5001 := by
    rw [hentries, List.length_append, busyScores, length_scoresOf]
    rfl
  have hread : (rangeFrom scores (1000 - largestWindowSeconds)).length = 5001 := by
    rw [rangeFrom, (perm_sortBy _ _).length_eq, List.filter_eq_self.mpr, hlength]
    intro entry hentry
    rw [hscores entry hentry]
    exact decide_eq_true (by norm_num [largestWindowSeconds])
  have hmoment (amounts : Dict String String) :
      ∀ entry ∈ (recordedWindow 1000 scores amounts).entries, entry.score = 1000 := by
    intro entry hentry
    obtain ⟨member, hmember, hscore⟩ := mem_recordedWindow hentry
    rw [hscore, hscores member hmember]
  have hin : (1000 : ℚ) - (3600 : Nat) ≤ 1000 := by norm_num
  have hseen (amounts : Dict String String) : countSeen (.ok (windowOf clockPython 1000
      (rangeFrom scores (1000 - largestWindowSeconds)) amounts aggregates')) (.str "1h") {} =
        .ok (.int 5000) := by
    refine (count_unfiltered fun entry hentry => ?_).trans
      (congrArg (fun n : Int => Except.ok (Value.int n)) ?_)
    · rw [entries_windowOf_rangeFrom] at hentry
      rw [hmoment amounts entry (mem_read_recorded (List.mem_of_mem_drop hentry))]
      exact hin
    · rw [entries_windowOf_rangeFrom, List.length_drop, readEntries, List.length_map, hread]
      rfl
  have hexact (amounts : Dict String String) :
      callWith (velocityCount (recordedWindow 1000 scores amounts).provider) (.str "1h") {} =
        .ok (.int 5001) := by
    refine (count_unfiltered fun entry hentry => ?_).trans
      (congrArg (fun n : Int => Except.ok (Value.int n)) ?_)
    · rw [hmoment amounts entry hentry]
      exact hin
    · rw [recordedWindow, List.length_map, hlength]
      rfl
  have hrecorded : (sampleVelocity.fetch clockPython busyServer 1000 (some nextRecorded)).1.hash?
      sampleVelocity.amountsKey = some ((busyScores.map fun _ => "100:transfer").set
        nextRecorded.transactionRef
        (amountText nextRecorded.amountMinor nextRecorded.transactionType)) := by
    rw [hfetch]
    exact Server.hash?_of_find? ha
  refine ⟨_, scores, _, congrArg Prod.snd hfetch, ?_, hrecorded, ?_, hseen _, hexact _, fun h => ?_⟩
  · rw [hfetch]
    exact Server.sortedSet?_of_find? hm
  · rw [windowOf_truncated, hread]
    decide
  · rw [hseen, hexact] at h
    rcases h with ⟨value, hvalue, hother⟩ | ⟨e, h⟩
    · cases hvalue
      cases hother
    · cases h

end ComplyLayer
