import ComplyLayer.Api.Publication
import ComplyLayer.Api.Worker
import ComplyLayer.Theory.Runs

/-!
# A decision means its version

The cache of a tenant holds a published version, whole, and a refresh under its lock only moves it
on. A request takes the rules of one version from it and asks the store for the lists of that
version, by its number; a version stays as it was published, so the two belong together whatever
comes between.
-/

namespace ComplyLayer

open Theory

/-- What the cache of the tenant may hold: a published version, compiled whole. -/
def CompiledVersion.Published (py : Python) (db : ManagementDb) (tenantId : String)
    (loaded : CompiledVersion) : Prop :=
  ∃ version, db.versions.find? (tenantId, loaded.ruleset.version) = some version ∧
    version.compile py = .ok loaded

/-- Every version of one database is in the other. -/
def ManagementDb.Extends (db db' : ManagementDb) : Prop :=
  ∀ key version, db.versions.find? key = some version → db'.versions.find? key = some version

namespace CompiledVersion.Published

variable {py : Python} {db db' : ManagementDb} {loaded : CompiledVersion}

theorem mono (h : loaded.Published py db tenantId) (hextends : db.Extends db') :
    loaded.Published py db' tenantId := by
  obtain ⟨version, hfound, hcompile⟩ := h
  exact ⟨version, hextends _ _ hfound, hcompile⟩

theorem of_compile {version : RuleSetVersion}
    (hfound : db.versions.find? (tenantId, version.version) = some version)
    (hcompile : version.compile py = .ok loaded) : loaded.Published py db tenantId := by
  refine ⟨version, ?_, hcompile⟩
  rw [RuleSetVersion.compile_version hcompile]
  exact hfound

theorem le_latestVersion (h : loaded.Published py db tenantId) :
    loaded.ruleset.version ≤ db.latestVersion tenantId := by
  obtain ⟨version, hfound, hcompile⟩ := h
  obtain ⟨hmem, hkey⟩ := Table.find?_eq_some_iff.mp hfound
  rw [RuleSetVersion.compile_version hcompile]
  exact ComplyLayer.le_latestVersion hmem (congrArg Prod.fst hkey)

/-- What `named_lists` answers for the version of a rule set is that version's lists. -/
theorem tupleLists_namedLists (h : loaded.Published py db tenantId) :
    tupleLists (DatabaseStore.namedLists db tenantId loaded.ruleset.version) = .ok loaded.lists := by
  obtain ⟨version, hfound, hcompile⟩ := h
  rw [DatabaseStore.namedLists, hfound]
  exact (RuleSetVersion.compile_eq_ok_iff.mp hcompile).2

end CompiledVersion.Published

/-- A refresh leaves what was there, or the version that was loaded. -/
theorem refreshed_eq_some {py : Python} {current : Option CompiledVersion}
    (h : refreshed py current published force = some loaded) :
    current = some loaded ∨
      ∃ version, published = some version ∧ version.compile py = .ok loaded := by
  unfold refreshed at h
  split at h
  · exact .inl h
  · rename_i version
    split at h
    · exact .inl h
    · split at h
      · rename_i hcompile
        cases h
        exact .inr ⟨version, rfl, hcompile⟩
      · exact .inl h

/-- What is there is replaced by what was loaded alone. -/
theorem refreshed_of_some (py : Python) (current : CompiledVersion)
    (published : Option RuleSetVersion) (force : Bool) :
    ∃ loaded, refreshed py (some current) published force = some loaded := by
  unfold refreshed
  split
  · exact ⟨_, rfl⟩
  · split
    · exact ⟨_, rfl⟩
    · split
      · exact ⟨_, rfl⟩
      · exact ⟨_, rfl⟩

namespace Worker

variable {θ ρ : Type} {py : Python} {hash : HashCustomerRef} {salt : String}

/-- The row is that of a decision the handler of a published version made, on its lists. -/
def Means (py : Python) (hash : HashCustomerRef) (salt : String) (published : ManagementDb)
    (row : DecisionRow) : Prop :=
  ∃ loaded : CompiledVersion, loaded.Published py published row.tenantId ∧
    row.rulesetVersion = loaded.ruleset.version ∧
    ∃ store transaction velocity now decisionId body latencyMs idempotencyKey record,
      store.namedLists = loaded.lists ∧
      DecisionHandler.decide py ⟨row.tenantId, loaded.ruleset, salt⟩ store transaction velocity now
        decisionId = .ok body ∧
      DatabaseStore.rowsOf py (DecisionHandler.recordArguments hash
        ⟨row.tenantId, loaded.ruleset, salt⟩ (body.set "latency_ms" (.int latencyMs)) transaction
        idempotencyKey) = some (row, record)

/-- What a request has taken is of one published version. -/
def Sound (py : Python) (salt : String) (published : ManagementDb) (request : PostedDecision) :
    Serving → Prop
  | .received | .recorded | .failed => True
  | .captured handler => ∃ loaded : CompiledVersion,
    loaded.Published py published request.tenantId ∧
      handler = ⟨request.tenantId, loaded.ruleset, salt⟩
  | .listed handler lists => ∃ loaded : CompiledVersion,
    loaded.Published py published request.tenantId ∧
      handler = ⟨request.tenantId, loaded.ruleset, salt⟩ ∧ tupleLists lists = .ok loaded.lists
  | .decided handler body => ∃ loaded : CompiledVersion,
    loaded.Published py published request.tenantId ∧
      handler = ⟨request.tenantId, loaded.ruleset, salt⟩ ∧
      ∃ store velocity now decisionId body' latencyMs, store.namedLists = loaded.lists ∧
        handler.decide py store request.transaction velocity now decisionId = .ok body' ∧
        body = body'.set "latency_ms" (.int latencyMs)

theorem Means.mono {published published' : ManagementDb} (h : Means py hash salt published row)
    (hextends : published.Extends published') : Means py hash salt published' row := by
  obtain ⟨loaded, hpublished, hrest⟩ := h
  exact ⟨loaded, hpublished.mono hextends, hrest⟩

theorem Sound.mono {published published' : ManagementDb} {serving : Serving}
    (h : Sound py salt published request serving) (hextends : published.Extends published') :
    Sound py salt published' request serving := by
  cases serving with
  | received | recorded | failed => trivial
  | captured handler | listed handler lists | decided handler body =>
    obtain ⟨loaded, hpublished, hrest⟩ := h
    exact ⟨loaded, hpublished.mono hextends, hrest⟩

/-- What holds of a worker at every moment. -/
structure Consistent (py : Python) (hash : HashCustomerRef) (salt : String)
    (requests : ρ → PostedDecision) (before : List DecisionRow) (w : Worker θ ρ) : Prop where
  cached : ∀ tenantId loaded, w.cache tenantId = some loaded →
    loaded.Published py w.published tenantId
  /-- What was loaded under the lock is no older than what the cache holds. -/
  loading : ∀ tenantId thread version, w.lock tenantId = some (.loaded thread (some version)) →
    w.published.versions.find? (tenantId, version.version) = some version ∧
      ∀ loaded, w.cache tenantId = some loaded → loaded.ruleset.version ≤ version.version
  serving : ∀ r, Sound py salt w.published (requests r) (w.serving r)
  recorded : ∀ row ∈ w.db.decisions.rows, row ∉ before → Means py hash salt w.published row

variable [DecidableEq θ] [DecidableEq ρ] {requests : ρ → PostedDecision} {w w' : Worker θ ρ}
  {before : List DecisionRow}

omit [DecidableEq θ] in
theorem Effect.extends (h : Effect py hash salt requests w w') :
    w.published.Extends w'.published := by
  cases h with
  | published version versions insert newer =>
    exact fun key row hfound => Table.find?_insert?_of_some insert hfound
  | _ => exact fun key row hfound => hfound

omit [DecidableEq θ] in
/-- A step keeps what the caches hold, or moves it on. -/
theorem Effect.cache_le {loaded : CompiledVersion} (h : Effect py hash salt requests w w')
    (hw : w.Consistent py hash salt requests before) (hcached : w.cache tenantId = some loaded) :
    ∃ loaded', w'.cache tenantId = some loaded' ∧
      loaded.ruleset.version ≤ loaded'.ruleset.version := by
  cases h with
  | swapped tenantId' thread published force held =>
    by_cases htenant : tenantId = tenantId'
    · subst htenant
      obtain ⟨loaded', hloaded'⟩ := refreshed_of_some py loaded published force
      rw [← hcached] at hloaded'
      refine ⟨loaded', (Function.update_self ..).trans hloaded', ?_⟩
      rcases refreshed_eq_some hloaded' with hsame | ⟨version, rfl, hcompile⟩
      · cases hcached.symm.trans hsame
        exact le_rfl
      · rw [RuleSetVersion.compile_version hcompile]
        exact (hw.loading tenantId thread version held).2 loaded hcached
    · exact ⟨loaded, (Function.update_of_ne htenant ..).trans hcached, le_rfl⟩
  | _ => exact ⟨loaded, hcached, le_rfl⟩

omit [DecidableEq θ] in
/-- A step of a request that leaves the database as it is. -/
theorem Consistent.advance {serving : Serving} (hw : w.Consistent py hash salt requests before)
    (h : Sound py salt w.published (requests r) serving) :
    (w.advance r serving).Consistent py hash salt requests before := by
  refine ⟨hw.cached, hw.loading, fun r' => ?_, hw.recorded⟩
  by_cases hr : r' = r
  · subst hr
    have hserving : (w.advance r' serving).serving r' = serving := Function.update_self ..
    rw [hserving]
    exact h
  · have hserving : (w.advance r serving).serving r' = w.serving r' := Function.update_of_ne hr ..
    rw [hserving]
    exact hw.serving r'

omit [DecidableEq θ] [DecidableEq ρ] in
/-- A step of a refresh that leaves the cache as it is. -/
theorem Consistent.setLock {lock : Option (Refreshing θ)}
    (hw : w.Consistent py hash salt requests before)
    (h : ∀ thread version, lock = some (.loaded thread (some version)) →
      w.published.versions.find? (tenantId, version.version) = some version ∧
        ∀ loaded, w.cache tenantId = some loaded → loaded.ruleset.version ≤ version.version) :
    (w.setLock tenantId lock).Consistent py hash salt requests before := by
  refine ⟨hw.cached, fun tenantId' thread version hlock => ?_, hw.serving, hw.recorded⟩
  by_cases htenant : tenantId' = tenantId
  · subst htenant
    have hheld : (w.setLock tenantId' lock).lock tenantId' = lock := Function.update_self ..
    exact h thread version (hheld.symm.trans hlock)
  · have hheld : (w.setLock tenantId lock).lock tenantId' = w.lock tenantId' :=
      Function.update_of_ne htenant ..
    exact hw.loading tenantId' thread version (hheld.symm.trans hlock)

omit [DecidableEq θ] in
theorem Consistent.effect (hw : w.Consistent py hash salt requests before)
    (h : Effect py hash salt requests w w') : w'.Consistent py hash salt requests before := by
  have hextends := h.extends
  cases h with
  | published version versions insert newer =>
    refine ⟨fun tenantId loaded hcached => (hw.cached tenantId loaded hcached).mono hextends,
      fun tenantId thread version hlock => ?_, fun r => (hw.serving r).mono hextends,
      fun row hrow hnew => (hw.recorded row hrow hnew).mono hextends⟩
    obtain ⟨hfound, hle⟩ := hw.loading tenantId thread version hlock
    exact ⟨hextends _ _ hfound, hle⟩
  | locked tenantId lock notLoaded =>
    exact hw.setLock fun thread version hlock => absurd hlock (notLoaded thread _)
  | loaded tenantId thread =>
    refine hw.setLock fun thread' version hlock => ?_
    have hload : w.published.loadPublished tenantId = some version := by
      simp only [Option.some.injEq, Refreshing.loaded.injEq] at hlock
      exact hlock.2
    obtain ⟨-, hnumber, hfound⟩ := ManagementDb.loadPublished_eq_some hload
    refine ⟨hfound, fun loaded hcached => ?_⟩
    rw [hnumber]
    exact (hw.cached tenantId loaded hcached).le_latestVersion
  | swapped tenantId thread published force held =>
    refine ⟨fun tenantId' loaded hcached => ?_, fun tenantId' thread' version hlock => ?_,
      hw.serving, hw.recorded⟩
    · change Function.update w.cache tenantId _ tenantId' = some loaded at hcached
      by_cases htenant : tenantId' = tenantId
      · subst htenant
        rw [Function.update_self] at hcached
        rcases refreshed_eq_some hcached with hsame | ⟨version, rfl, hcompile⟩
        · exact hw.cached tenantId' loaded hsame
        · exact .of_compile (hw.loading tenantId' thread version held).1 hcompile
      · rw [Function.update_of_ne htenant] at hcached
        exact hw.cached tenantId' loaded hcached
    · change Function.update w.lock tenantId none tenantId' = _ at hlock
      by_cases htenant : tenantId' = tenantId
      · subst htenant
        rw [Function.update_self] at hlock
        cases hlock
      · rw [Function.update_of_ne htenant] at hlock
        obtain ⟨hfound, hle⟩ := hw.loading tenantId' thread' version hlock
        refine ⟨hfound, fun loaded hcached => hle loaded ?_⟩
        exact (Function.update_of_ne htenant ..).symm.trans hcached
  | captured r loaded cached =>
    exact hw.advance ⟨loaded, hw.cached _ _ cached, rfl⟩
  | listed r handler captured =>
    have hsound := hw.serving r
    rw [captured] at hsound
    obtain ⟨loaded, hpublished, rfl⟩ := hsound
    exact hw.advance ⟨loaded, hpublished, rfl, hpublished.tupleLists_namedLists⟩
  | decided r handler lists store velocity now decisionId body latencyMs listed tuples decide =>
    have hsound := hw.serving r
    rw [listed] at hsound
    obtain ⟨loaded, hpublished, rfl, hlists⟩ := hsound
    refine hw.advance ⟨loaded, hpublished, rfl, store, velocity, now, decisionId, body, latencyMs,
      ?_, decide, rfl⟩
    exact Except.ok.inj (tuples.symm.trans hlists)
  | recorded r handler body db decided record =>
    have hsound := hw.serving r
    rw [decided] at hsound
    obtain ⟨loaded, hpublished, rfl, store, velocity, now, decisionId, body', latencyMs, hlists,
      hdecide, rfl⟩ := hsound
    obtain ⟨row, idempotency, hrows, hinsert, -⟩ := DatabaseStore.save_eq_some_iff.mp record
    have hsoundRecorded : Sound py salt w.published (requests r) .recorded := trivial
    have hadvance := hw.advance hsoundRecorded
    refine ⟨hadvance.cached, hadvance.loading, hadvance.serving, fun row' hrow' hnew => ?_⟩
    rw [(Table.insert?_eq_some_iff.mp hinsert).2] at hrow'
    rcases List.mem_append.mp hrow' with hold | hlast
    · exact hw.recorded row' hold hnew
    · obtain rfl := List.mem_singleton.mp hlast
      have htenant : row'.tenantId = (requests r).tenantId :=
        congrArg Prod.fst (DatabaseStore.rowsOf_spec hrows).1
      rw [Means, htenant]
      exact ⟨loaded, hpublished, DatabaseStore.rowsOf_rulesetVersion hrows, store,
        (requests r).transaction, velocity, now, decisionId, body', latencyMs, _, idempotency,
        hlists, hdecide, hrows⟩
  | failed r => exact hw.advance trivial

end Worker

/-- **A decision means its version.** At every moment each cache holds one published version,
whole; what it held before is no newer; and every decision that was recorded was made by the rules
and on the lists of the version it names. -/
theorem decision_means_version {θ ρ : Type} [DecidableEq θ] [DecidableEq ρ] {py : Python}
    {hash : HashCustomerRef} {salt : String} {requests : ρ → PostedDecision}
    {published : ManagementDb} {db : Database} {steps : List (WorkerStep θ ρ)} {w : Worker θ ρ}
    (hrun : run (Worker.step py hash salt requests) { published := published, db := db } steps =
      some w) :
    (∀ tenantId loaded, w.cache tenantId = some loaded →
      loaded.Published py w.published tenantId) ∧
    (∀ later w' tenantId loaded, run (Worker.step py hash salt requests) w later = some w' →
      w.cache tenantId = some loaded → ∃ loaded', w'.cache tenantId = some loaded' ∧
        loaded.ruleset.version ≤ loaded'.ruleset.version) ∧
    ∀ row ∈ w.db.decisions.rows, row ∉ db.decisions.rows →
      Worker.Means py hash salt w.published row := by
  have hkeep (u : Worker θ ρ) (a : WorkerStep θ ρ) (v : Worker θ ρ)
      (hu : u.Consistent py hash salt requests db.decisions.rows)
      (hstep : Worker.step py hash salt requests u a = some v) :
      v.Consistent py hash salt requests db.decisions.rows :=
    hu.effect (Worker.effect_of_step hstep)
  have hstart : ({ published := published, db := db } : Worker θ ρ).Consistent py hash salt requests
      db.decisions.rows := by
    refine ⟨fun _ _ hcached => ?_, fun _ _ _ hlock => ?_, fun _ => trivial, fun row hrow hnew => ?_⟩
    · cases hcached
    · cases hlock
    · exact absurd hrow hnew
  have hw := run_invariant (Worker.Consistent py hash salt requests db.decisions.rows) hkeep hstart
    hrun
  refine ⟨hw.cached, fun later w' tenantId loaded hlater hcached => ?_, hw.recorded⟩
  have hmoved := run_invariant (fun v => v.Consistent py hash salt requests db.decisions.rows ∧
    ∃ loaded', v.cache tenantId = some loaded' ∧ loaded.ruleset.version ≤ loaded'.ruleset.version)
    (fun u a v hu hstep => ?_) ⟨hw, loaded, hcached, le_rfl⟩ hlater
  · exact hmoved.2
  · obtain ⟨hu, loaded', hcached', hle⟩ := hu
    have heffect := Worker.effect_of_step hstep
    obtain ⟨newer, hnewer, hle'⟩ := heffect.cache_le hu hcached'
    exact ⟨hu.effect heffect, newer, hnewer, hle.trans hle'⟩

/-! A version is published and loaded while a request is between its steps. -/

def versionsPython : Python := .reading "amount_minor > 50"
  (.compare (.name "amount_minor") [(.gt, .constant (.int 50))])

def limitVersion (number : Nat) (severity : String) : RuleSetVersion where
  tenantId := "tnt_1"
  version := number
  rulesSnapshot := [⟨"rul_1", "Limit", "amount_minor > 50", severity, .active, 0, "", ""⟩]
  listsSnapshot := ∅
  publishedBy := "key_officer"

def postedDecision : PostedDecision where
  tenantId := "tnt_1"
  transaction :=
    { transactionRef := "tx_1", customerRef := "c_1", amountMinor := 700, currency := "NGN" }
  idempotencyKey := "key_1"

def overtakenRequest : List (WorkerStep Nat Unit) :=
  [.publish (limitVersion 1 "block"), .acquire 0 "tnt_1", .load 0 "tnt_1", .swap 0 "tnt_1" false,
    .capture (), .publish (limitVersion 2 "flag"), .acquire 1 "tnt_1", .load 1 "tnt_1",
    .swap 1 "tnt_1" false, .readLists (),
    .evaluate () (.window { now := 0 }) ∅ ⟨0, 0⟩ "dec_1" 5, .record ()]

theorem decision_means_version_overtaken : ∃ w row,
    run (Worker.step versionsPython (fun ref _ => ref) "salt" fun _ => postedDecision)
      { published := {}, db := {} } overtakenRequest = some w ∧
    (w.cache "tnt_1").map (·.ruleset.version) = some 2 ∧ row ∈ w.db.decisions.rows ∧
    row.rulesetVersion = 1 ∧
    Worker.Means versionsPython (fun ref _ => ref) "salt" w.published row := by
  have heval : ((run (Worker.step versionsPython (fun ref _ => ref) "salt" fun _ => postedDecision)
      { published := {}, db := {} } overtakenRequest).bind fun w =>
        w.db.decisions.rows.head?.map fun row =>
          ((w.cache "tnt_1").map (·.ruleset.version), row.rulesetVersion)) = some (some 2, 1) := by
    decide +kernel
  obtain ⟨w, hrun, hrow⟩ := Option.bind_eq_some_iff.mp heval
  obtain ⟨row, hhead, hpair⟩ := Option.map_eq_some_iff.mp hrow
  have hmem : row ∈ w.db.decisions.rows := List.mem_of_head? hhead
  exact ⟨w, row, hrun, congrArg Prod.fst hpair, hmem, congrArg Prod.snd hpair,
    (decision_means_version hrun).2.2 row hmem List.not_mem_nil⟩

end ComplyLayer
