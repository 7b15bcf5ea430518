import ComplyLayer.Api.Handler
import ComplyLayer.Theory.Redis

/-!
# Rolling windows over Redis

The fetch of `velocity/redis_store.py`, which records a transaction and reads the window in one
transaction, and what `api/handler.py` makes of it.
-/

namespace ComplyLayer

open Theory Redis

def largestWindowSeconds : Nat := 2592000

/-- Keys outlive the largest window by a margin. -/
def keyTtlSeconds : Nat := largestWindowSeconds + 86400

def maxMembersFetched : Nat := 5000

/-- A velocity provider bound to one tenant and one customer. -/
structure RedisVelocity where
  tenantId : String
  customerHash : String

namespace RedisVelocity

def membersKey (velocity : RedisVelocity) : String :=
  "v:" ++ velocity.tenantId ++ ":" ++ velocity.customerHash

def amountsKey (velocity : RedisVelocity) : String :=
  "va:" ++ velocity.tenantId ++ ":" ++ velocity.customerHash

def aggregatesKey (velocity : RedisVelocity) : String :=
  "vg:" ++ velocity.tenantId ++ ":" ++ velocity.customerHash

end RedisVelocity

/-- The transaction a fetch records. -/
structure Recorded where
  transactionRef : String
  amountMinor : Int
  transactionType : String

/-- `f"{amount_minor}:{transaction_type}"`. -/
def amountText (amount : Int) (kind : String) : String := toString amount ++ ":" ++ kind

/-- `_split_amount`: `text.partition(":")`, and the amount as an integer. -/
def splitAmount : Option String → Int × String
  | none => (0, "")
  | some text =>
    let amount := String.ofList (text.toList.takeWhile (· ≠ ':'))
    let kind := String.ofList ((text.toList.dropWhile (· ≠ ':')).drop 1)
    ((decimal? amount).getD 0, kind)

/-- `_parse_aggregates`. -/
def parseAggregates (py : Python) (fields : Dict String String) : Aggregates where
  lifetimeCount := number "lifetime_count"
  lifetimeVolumeMinor := number "lifetime_volume_minor"
  priorFlagCount := number "prior_flag_count"
  firstSeenAt := reading "first_seen_at"
  lastTransactionAt := reading "last_transaction_at"
where
  number (name : String) : Int := ((fields.get? name).bind decimal?).getD 0
  reading (name : String) : ℚ := ((fields.get? name).bind py.float).getD 0

/-- The window `_fetch` makes of its last three replies. -/
def windowOf (py : Python) (moment : ℚ) (members : List (String × ℚ))
    (amounts aggregates : Dict String String) : Window :=
  let fetched := members.drop (members.length - maxMembersFetched)
  { now := moment
    entries := fetched.map fun (member, score) =>
      let (amount, kind) := splitAmount (amounts.get? member)
      ⟨member, score, amount, kind⟩
    truncated := maxMembersFetched < members.length
    aggregates := parseAggregates py aggregates }

/-- A recorded member as an entry of a window. -/
def entryOf (amounts : Dict String String) (member : String × ℚ) : WindowEntry :=
  ⟨member.1, member.2, (splitAmount (amounts.get? member.1)).1,
    (splitAmount (amounts.get? member.1)).2⟩

theorem windowOf_entries (py : Python) (moment : ℚ) (members : List (String × ℚ))
    (amounts aggregates : Dict String String) :
    (windowOf py moment members amounts aggregates).entries =
      (members.drop (members.length - maxMembersFetched)).map (entryOf amounts) := by
  simp only [windowOf]
  exact List.map_congr_left fun _ _ => rfl

theorem windowOf_truncated (py : Python) (moment : ℚ) (members : List (String × ℚ))
    (amounts aggregates : Dict String String) :
    (windowOf py moment members amounts aggregates).truncated =
      decide (maxMembersFetched < members.length) := rfl

/-- The window `_fetch` makes of the replies, or the message of the exception `execute` raises. -/
def fetched (py : Python) (moment : ℚ) (replies : List Reply) : Except String Window :=
  match firstError replies, replies.reverse with
  | some message, _ => .error message
  | none, .fields aggregates :: .fields amounts :: .members members :: _ =>
    .ok (windowOf py moment members amounts aggregates)
  -- The last three commands answer with these replies or with an error.
  | none, _ => .error ""

namespace RedisVelocity

/-- What recording a transaction adds to the pipeline. -/
def recordCommands (py : Python) (velocity : RedisVelocity) (moment : ℚ) (t : Recorded) :
    List Command :=
  [.zadd velocity.membersKey t.transactionRef moment,
    .hset velocity.amountsKey t.transactionRef (amountText t.amountMinor t.transactionType),
    .expire velocity.membersKey keyTtlSeconds,
    .expire velocity.amountsKey keyTtlSeconds,
    .hincrby velocity.aggregatesKey "lifetime_count" 1,
    .hincrby velocity.aggregatesKey "lifetime_volume_minor" t.amountMinor,
    .hsetnx velocity.aggregatesKey "first_seen_at" (py.repr (.float moment)),
    .hset velocity.aggregatesKey "last_transaction_at" (py.repr (.float moment)),
    .persist velocity.aggregatesKey]

/-- The pipeline of `_fetch`. -/
def fetchCommands (py : Python) (velocity : RedisVelocity) (moment : ℚ)
    (record : Option Recorded) : List Command :=
  let cutoff := moment - largestWindowSeconds
  .zremrangebyscore velocity.membersKey 0 cutoff ::
    ((record.map (velocity.recordCommands py moment)).getD [] ++
      [.zrangebyscore velocity.membersKey cutoff, .hgetall velocity.amountsKey,
        .hgetall velocity.aggregatesKey])

/-- `_fetch`. -/
def fetch (py : Python) (velocity : RedisVelocity) (server : Server) (moment : ℚ)
    (record : Option Recorded) : Server × Except String Window :=
  let (server', replies) := server.transaction (velocity.fetchCommands py moment record)
  (server', fetched py moment replies)

/-- `record_and_gather`. -/
def recordAndGather (py : Python) (velocity : RedisVelocity) (server : Server)
    (t : Recorded) (moment : ℚ) : Server × Except String Window :=
  velocity.fetch py server moment (some t)

end RedisVelocity

/-- `now.timestamp()`. -/
def Instant.timestamp (now : Instant) : ℚ := now.micros / 1000000

/-- A failed fetch degrades rather than raises. -/
def Gathered.ofFetch : Except String Window → Gathered
  | .ok fetched => .window fetched
  | .error cause => .unavailable cause

/-- `_gather`. -/
def DecisionHandler.gather (py : Python) (velocity : RedisVelocity) (server : Server)
    (transaction : Transaction) (now : Instant) : Server × Gathered :=
  let result := velocity.recordAndGather py server
    ⟨transaction.transactionRef, transaction.amountMinor, transaction.transactionType⟩
    now.timestamp
  (result.1, .ofFetch result.2)

theorem DecisionHandler.gather_of_ok {py : Python} {velocity : RedisVelocity}
    {server server' : Server} {transaction : Transaction} {now : Instant}
    (h : velocity.recordAndGather py server
      ⟨transaction.transactionRef, transaction.amountMinor, transaction.transactionType⟩
      now.timestamp = (server', .ok window)) :
    DecisionHandler.gather py velocity server transaction now = (server', .window window) := by
  rw [gather, h]
  rfl

/-! ## Reading back -/

theorem splitAmount_amountText (amount : Int) (kind : String) :
    splitAmount (some (amountText amount kind)) = (amount, kind) := by
  have hamount : ∀ c ∈ (toString amount).toList, decide (c ≠ ':') = true := by
    intro c hc
    rcases mem_toString amount hc with h | rfl
    · refine decide_eq_true ?_
      rintro rfl
      cases h
    · decide
  have hlist : (amountText amount kind).toList = (toString amount).toList ++ ':' :: kind.toList := by
    simp [amountText]
  have htake : (amountText amount kind).toList.takeWhile (· ≠ ':') = (toString amount).toList := by
    rw [hlist, List.takeWhile_append_of_pos hamount]
    simp
  have hdrop : (amountText amount kind).toList.dropWhile (· ≠ ':') = ':' :: kind.toList := by
    rw [hlist, List.dropWhile_append_of_pos hamount]
    simp
  simp only [splitAmount, htake, hdrop, String.ofList_toList, decimal?_toString, Option.getD_some,
    List.drop_succ_cons, List.drop_zero]

/-- Every window a rule can name lies within the largest. -/
theorem windowSeconds?_le {window : String} (h : windowSeconds? window = some seconds) :
    seconds ≤ largestWindowSeconds := by
  unfold windowSeconds? at h
  split at h <;> cases h <;> decide

namespace RedisVelocity

variable (velocity : RedisVelocity)

theorem toList_membersKey : velocity.membersKey.toList =
    'v' :: ':' :: (velocity.tenantId ++ ":" ++ velocity.customerHash).toList := by
  simp [membersKey]

theorem toList_amountsKey : velocity.amountsKey.toList =
    'v' :: 'a' :: ':' :: (velocity.tenantId ++ ":" ++ velocity.customerHash).toList := by
  simp [amountsKey]

theorem toList_aggregatesKey : velocity.aggregatesKey.toList =
    'v' :: 'g' :: ':' :: (velocity.tenantId ++ ":" ++ velocity.customerHash).toList := by
  simp [aggregatesKey]

theorem membersKey_ne_amountsKey : velocity.membersKey ≠ velocity.amountsKey := fun h => by
  have hlist := congrArg String.toList h
  rw [toList_membersKey, toList_amountsKey] at hlist
  simp at hlist

theorem membersKey_ne_aggregatesKey : velocity.membersKey ≠ velocity.aggregatesKey := fun h => by
  have hlist := congrArg String.toList h
  rw [toList_membersKey, toList_aggregatesKey] at hlist
  simp at hlist

theorem amountsKey_ne_aggregatesKey : velocity.amountsKey ≠ velocity.aggregatesKey := fun h => by
  have hlist := congrArg String.toList h
  rw [toList_amountsKey, toList_aggregatesKey] at hlist
  simp at hlist

/-! ## Reading the window -/

/-- A fetch that returns has read the three keys as they are on the server it leaves. -/
theorem fetch_eq_ok {py : Python} {server server' : Server} {moment : ℚ}
    {record : Option Recorded} {window : Window}
    (h : velocity.fetch py server moment record = (server', .ok window)) :
    ∃ scores amounts aggregates, server'.sortedSet? velocity.membersKey = some scores ∧
      server'.hash? velocity.amountsKey = some amounts ∧
      server'.hash? velocity.aggregatesKey = some aggregates ∧
      window = windowOf py moment (rangeFrom scores (moment - largestWindowSeconds)) amounts
        aggregates := by
  let writes : List Command := .zremrangebyscore velocity.membersKey 0
    (moment - largestWindowSeconds) :: (record.map (velocity.recordCommands py moment)).getD []
  let written := server.transaction writes
  have hreads : written.1.transaction
      [.zrangebyscore velocity.membersKey (moment - largestWindowSeconds),
        .hgetall velocity.amountsKey, .hgetall velocity.aggregatesKey] =
      (written.1,
        [(written.1.exec (.zrangebyscore velocity.membersKey (moment - largestWindowSeconds))).2,
          (written.1.exec (.hgetall velocity.amountsKey)).2,
          (written.1.exec (.hgetall velocity.aggregatesKey)).2]) := by
    simp only [Server.transaction, exec_zrangebyscore_fst, exec_hgetall_fst]
  have hall := transaction_append server writes
    [.zrangebyscore velocity.membersKey (moment - largestWindowSeconds),
      .hgetall velocity.amountsKey, .hgetall velocity.aggregatesKey]
  rw [hreads] at hall
  rw [fetch, show velocity.fetchCommands py moment record = writes ++ _ from rfl, hall] at h
  obtain ⟨rfl, h⟩ := Prod.mk.inj h
  unfold fetched at h
  simp only [List.reverse_append, List.reverse_cons, List.reverse_nil, List.nil_append,
    List.cons_append] at h
  split at h
  · cases h
  · rename_i aggregates amounts members rest _ hreplies
    cases h
    injection hreplies with haggregates hrest
    injection hrest with hamounts hrest
    injection hrest with hmembers _
    obtain ⟨scores, hscores, rfl⟩ := sortedSet?_of_zrangebyscore hmembers
    exact ⟨scores, amounts, aggregates, hscores, hash?_of_hgetall hamounts,
      hash?_of_hgetall haggregates, rfl⟩
  · cases h

/-! ## Recording a transaction -/

variable {velocity : RedisVelocity}

/-- The members a fetch leaves before it records. -/
def trimmedMembers (scores : Dict String ℚ) (moment : ℚ) : Dict String ℚ :=
  scores.filter fun entry => ¬ (0 ≤ entry.2 ∧ entry.2 ≤ moment - largestWindowSeconds)

/-- The members a recording fetch leaves: those after the cutoff, and the transaction. -/
def recordedMembers (scores : Dict String ℚ) (moment : ℚ) (t : Recorded) : Dict String ℚ :=
  (scores.filter fun entry =>
    ¬ (0 ≤ entry.2 ∧ entry.2 ≤ moment - largestWindowSeconds)).set t.transactionRef moment

/-- The counters and moments a recording fetch leaves. -/
def recordedAggregates (py : Python) (moment : ℚ) (t : Recorded) (fields : Dict String String) :
    Dict String String :=
  let counted := added (added fields "lifetime_count" 1) "lifetime_volume_minor" t.amountMinor
  let seen :=
    if counted.contains "first_seen_at" then counted
    else counted.set "first_seen_at" (py.repr (.float moment))
  seen.set "last_transaction_at" (py.repr (.float moment))

/-- The moments do not touch the counters. -/
theorem get?_recordedAggregates {py : Python} {moment : ℚ} {t : Recorded} {name : String}
    (hfirst : name ≠ "first_seen_at") (hlast : name ≠ "last_transaction_at")
    (fields : Dict String String) : (recordedAggregates py moment t fields).get? name =
      (added (added fields "lifetime_count" 1) "lifetime_volume_minor" t.amountMinor).get? name := by
  rw [recordedAggregates, Dict.get?_set_of_ne hlast]
  split
  · rfl
  · exact Dict.get?_set_of_ne hfirst _ _

/-- Both counters take what they are increased by. -/
def CountersTake (fields : Dict String String) (t : Recorded) : Prop :=
  (∃ n, increased (fields.get? "lifetime_count") 1 = .ok n) ∧
    ∃ n, increased (fields.get? "lifetime_volume_minor") t.amountMinor = .ok n

/-- **What recording does**: the transaction is in the members and in the amounts, the counters are
increased, and the window is read with it, unless a counter does not take its increment. -/
theorem recordAndGather_eq (py : Python) {server : Server} (t : Recorded) (moment : ℚ)
    (hmembers : server.sortedSet? velocity.membersKey = some scores)
    (hamounts : server.hash? velocity.amountsKey = some amounts)
    (haggregates : server.hash? velocity.aggregatesKey = some aggregates) :
    ∃ server' result, velocity.recordAndGather py server t moment = (server', result) ∧
      server'.now = server.now ∧
      server'.find? velocity.membersKey = some ⟨.sortedSet (recordedMembers scores moment t),
        some (server.now + keyTtlSeconds)⟩ ∧
      server'.find? velocity.amountsKey =
        some ⟨.hash (amounts.set t.transactionRef (amountText t.amountMinor t.transactionType)),
          some (server.now + keyTtlSeconds)⟩ ∧
      server'.find? velocity.aggregatesKey =
        some ⟨.hash (recordedAggregates py moment t aggregates), none⟩ ∧
      (CountersTake aggregates t → result = .ok (windowOf py moment
        (rangeFrom (recordedMembers scores moment t) (moment - largestWindowSeconds))
        (amounts.set t.transactionRef (amountText t.amountMinor t.transactionType))
        (recordedAggregates py moment t aggregates))) ∧
      (¬ CountersTake aggregates t → ∃ message, result = .error message) := by
  have hma := velocity.membersKey_ne_amountsKey
  have hmg := velocity.membersKey_ne_aggregatesKey
  have hag := velocity.amountsKey_ne_aggregatesKey
  have hcutoff : (0 : Int) < keyTtlSeconds := by decide
  -- The members: trimmed, then the transaction added.
  obtain ⟨r₁, n₁, h₁, hnow₁, hscores₁, hothers₁⟩ :=
    exec_zremrangebyscore hmembers 0 (moment - largestWindowSeconds)
  obtain ⟨r₂, n₂, h₂, hw₂⟩ :=
    exec_zadd hscores₁ t.transactionRef moment
  -- The amounts.
  have hamounts₂ : r₂.hash? velocity.amountsKey = some amounts := by
    rw [Server.hash?_congr (hw₂.others _ hma.symm), Server.hash?_congr (hothers₁ _ hma.symm)]
    exact hamounts
  obtain ⟨r₃, n₃, h₃, hw₃⟩ :=
    exec_hset hamounts₂ t.transactionRef (amountText t.amountMinor t.transactionType)
  -- Both get their time to live.
  have hmembers₃ := (hw₃.others _ hma).trans hw₂.self
  obtain ⟨r₄, n₄, h₄, hw₄⟩ := exec_expire hmembers₃ hcutoff
  have hamounts₄ := (hw₄.others _ hma.symm).trans hw₃.self
  obtain ⟨r₅, n₅, h₅, hw₅⟩ := exec_expire hamounts₄ hcutoff
  -- The counters.
  have haggregates₅ : r₅.hash? velocity.aggregatesKey = some aggregates := by
    rw [Server.hash?_congr (hw₅.others _ hag.symm), Server.hash?_congr (hw₄.others _ hmg.symm),
      Server.hash?_congr (hw₃.others _ hag.symm), Server.hash?_congr (hw₂.others _ hmg.symm),
      Server.hash?_congr (hothers₁ _ hmg.symm)]
    exact haggregates
  obtain ⟨r₆, count, h₆, hnow₆, hfields₆, hothers₆, hcount⟩ :=
    exec_hincrby haggregates₅ "lifetime_count" 1
  obtain ⟨r₇, volume, h₇, hnow₇, hfields₇, hothers₇, hvolume⟩ :=
    exec_hincrby hfields₆ "lifetime_volume_minor" t.amountMinor
  rw [get?_added_of_ne (by decide)] at hvolume
  -- The two moments, and no deadline.
  obtain ⟨r₈, n₈, h₈, hnow₈, hfields₈, hothers₈⟩ :=
    exec_hsetnx hfields₇ "first_seen_at" (py.repr (.float moment))
  obtain ⟨r₉, n₉, h₉, hw₉⟩ :=
    exec_hset hfields₈ "last_transaction_at" (py.repr (.float moment))
  obtain ⟨r₁₀, n₁₀, h₁₀, hw₁₀⟩ := exec_persist hw₉.self
  -- The three keys as the reads find them.
  have hothers (k : String) (hk : k ≠ velocity.aggregatesKey) : r₁₀.find? k = r₅.find? k := by
    rw [hw₁₀.others k hk, hw₉.others k hk, hothers₈ k hk, hothers₇ k hk, hothers₆ k hk]
  have hm := (hothers _ hmg).trans ((hw₅.others _ hma).trans hw₄.self)
  have ha := (hothers _ hag).trans hw₅.self
  have hg : r₁₀.find? velocity.aggregatesKey =
      some ⟨.hash (recordedAggregates py moment t aggregates), none⟩ := hw₁₀.self
  have hread : r₁₀.transaction
      [.zrangebyscore velocity.membersKey (moment - largestWindowSeconds),
        .hgetall velocity.amountsKey, .hgetall velocity.aggregatesKey] =
      (r₁₀, [.members (rangeFrom (recordedMembers scores moment t)
          (moment - largestWindowSeconds)),
        .fields (amounts.set t.transactionRef (amountText t.amountMinor t.transactionType)),
        .fields (recordedAggregates py moment t aggregates)]) := by
    simp only [Server.transaction, Server.exec, Server.sortedSet?_of_find? hm,
      Server.hash?_of_find? ha, Server.hash?_of_find? hg, recordedMembers]
  have hnow : r₁₀.now = server.now := by
    rw [hw₁₀.now, hw₉.now, hnow₈, hnow₇, hnow₆, hw₅.now, hw₄.now, hw₃.now, hw₂.now, hnow₁]
  have htransaction : server.transaction (velocity.fetchCommands py moment (some t)) =
      (r₁₀, [.int n₁, .int n₂, .int n₃, .int n₄, .int n₅, count, volume, .int n₈, .int n₉, .int n₁₀,
        .members (rangeFrom (recordedMembers scores moment t) (moment - largestWindowSeconds)),
        .fields (amounts.set t.transactionRef (amountText t.amountMinor t.transactionType)),
        .fields (recordedAggregates py moment t aggregates)]) := by
    rw [fetchCommands]
    simp only [Option.map_some, Option.getD_some, recordCommands, List.cons_append, List.nil_append]
    rw [transaction_cons h₁, transaction_cons h₂, transaction_cons h₃, transaction_cons h₄,
      transaction_cons h₅, transaction_cons h₆, transaction_cons h₇, transaction_cons h₈,
      transaction_cons h₉, transaction_cons h₁₀, hread]
  have hmembers' : r₁₀.find? velocity.membersKey =
      some ⟨.sortedSet (recordedMembers scores moment t), some (server.now + keyTtlSeconds)⟩ := by
    rw [hm, hw₃.now, hw₂.now, hnow₁]
    rfl
  have hamounts' : r₁₀.find? velocity.amountsKey =
      some ⟨.hash (amounts.set t.transactionRef (amountText t.amountMinor t.transactionType)),
        some (server.now + keyTtlSeconds)⟩ := by
    rw [ha, hw₄.now, hw₃.now, hw₂.now, hnow₁]
    rfl
  rw [recordAndGather, fetch, htransaction]
  -- The first error among the replies is that of a counter.
  rcases hcount with ⟨n, hn, rfl⟩ | ⟨hn, message, rfl⟩
  · rcases hvolume with ⟨m, hm, rfl⟩ | ⟨hm, message, rfl⟩
    · exact ⟨r₁₀, _, rfl, hnow, hmembers', hamounts', hg, fun _ => rfl,
        fun h => absurd ⟨⟨n, hn⟩, m, hm⟩ h⟩
    · refine ⟨r₁₀, _, rfl, hnow, hmembers', hamounts', hg, fun htake => ?_, fun _ => ⟨message, rfl⟩⟩
      obtain ⟨-, m, h⟩ := htake
      exact absurd h (hm m)
  · refine ⟨r₁₀, _, rfl, hnow, hmembers', hamounts', hg, fun htake => ?_, fun _ => ⟨message, rfl⟩⟩
    obtain ⟨⟨n, h⟩, -⟩ := htake
    exact absurd h (hn n)

/-- **What reading does**: the members are trimmed, and nothing else is written. -/
theorem gather_eq (py : Python) {server : Server} (moment : ℚ)
    (hmembers : server.sortedSet? velocity.membersKey = some scores)
    (hamounts : server.hash? velocity.amountsKey = some amounts)
    (haggregates : server.hash? velocity.aggregatesKey = some aggregates) :
    ∃ server', velocity.fetch py server moment none = (server', .ok (windowOf py moment
        (rangeFrom (trimmedMembers scores moment) (moment - largestWindowSeconds)) amounts
        aggregates)) ∧
      server'.now = server.now ∧
      server'.sortedSet? velocity.membersKey = some (trimmedMembers scores moment) ∧
      (∀ entry, server'.find? velocity.membersKey = some entry → ∃ before,
        server.find? velocity.membersKey = some before ∧ entry.deadline = before.deadline) ∧
      ∀ key, key ≠ velocity.membersKey → server'.find? key = server.find? key := by
  obtain ⟨server', n, hexec, hnow, hscores, hothers⟩ :=
    exec_zremrangebyscore hmembers 0 (moment - largestWindowSeconds)
  have hread : server'.transaction
      [.zrangebyscore velocity.membersKey (moment - largestWindowSeconds),
        .hgetall velocity.amountsKey, .hgetall velocity.aggregatesKey] =
      (server', [.members (rangeFrom (trimmedMembers scores moment)
          (moment - largestWindowSeconds)), .fields amounts, .fields aggregates]) := by
    have hamounts' : server'.hash? velocity.amountsKey = some amounts := by
      rw [Server.hash?_congr (hothers _ velocity.membersKey_ne_amountsKey.symm)]
      exact hamounts
    have haggregates' : server'.hash? velocity.aggregatesKey = some aggregates := by
      rw [Server.hash?_congr (hothers _ velocity.membersKey_ne_aggregatesKey.symm)]
      exact haggregates
    simp only [Server.transaction, Server.exec, hscores, hamounts', haggregates', trimmedMembers]
  have htransaction : server.transaction (velocity.fetchCommands py moment none) =
      (server', [.int n, .members (rangeFrom (trimmedMembers scores moment)
          (moment - largestWindowSeconds)), .fields amounts, .fields aggregates]) := by
    rw [fetchCommands]
    simp only [Option.map_none, Option.getD_none, List.nil_append]
    rw [transaction_cons hexec, hread]
  refine ⟨server', ?_, hnow, hscores, fun entry hentry => ?_, hothers⟩
  · rw [fetch, htransaction]
    rfl
  · have hleft : (server.exec (.zremrangebyscore velocity.membersKey 0
        (moment - largestWindowSeconds))).1.find? velocity.membersKey = some entry := by
      rw [hexec]
      exact hentry
    exact find?_exec_zremrangebyscore hmembers hleft

/-- Where the counters take their increments, the window is read. -/
theorem recordAndGather_eq_ok (py : Python) {server : Server} (t : Recorded) (moment : ℚ)
    (hmembers : server.sortedSet? velocity.membersKey = some scores)
    (hamounts : server.hash? velocity.amountsKey = some amounts)
    (haggregates : server.hash? velocity.aggregatesKey = some aggregates)
    (hcount : increased (aggregates.get? "lifetime_count") 1 = .ok count)
    (hvolume : increased (aggregates.get? "lifetime_volume_minor") t.amountMinor = .ok volume) :
    ∃ server' aggregates', velocity.recordAndGather py server t moment =
        (server', .ok (windowOf py moment
          (rangeFrom (recordedMembers scores moment t) (moment - largestWindowSeconds))
          (amounts.set t.transactionRef (amountText t.amountMinor t.transactionType))
          aggregates')) ∧
      server'.now = server.now ∧
      server'.find? velocity.membersKey = some ⟨.sortedSet (recordedMembers scores moment t),
        some (server.now + keyTtlSeconds)⟩ ∧
      server'.find? velocity.amountsKey =
        some ⟨.hash (amounts.set t.transactionRef (amountText t.amountMinor t.transactionType)),
          some (server.now + keyTtlSeconds)⟩ ∧
      server'.find? velocity.aggregatesKey = some ⟨.hash aggregates', none⟩ ∧
      aggregates'.get? "lifetime_count" = some (toString count) ∧
      aggregates'.get? "lifetime_volume_minor" = some (toString volume) := by
  obtain ⟨server', result, hfetch, hnow, hm, ha, hg, hok, -⟩ :=
    recordAndGather_eq py t moment hmembers hamounts haggregates
  rw [hok ⟨⟨_, hcount⟩, _, hvolume⟩] at hfetch
  refine ⟨server', _, hfetch, hnow, hm, ha, hg, ?_, ?_⟩
  · rw [get?_recordedAggregates (by decide) (by decide), get?_added_of_ne (by decide), added, hcount]
    exact Dict.get?_set_self _ _ _
  · rw [get?_recordedAggregates (by decide) (by decide), added, get?_added_of_ne (by decide),
      hvolume]
    exact Dict.get?_set_self _ _ _

end RedisVelocity

end ComplyLayer
