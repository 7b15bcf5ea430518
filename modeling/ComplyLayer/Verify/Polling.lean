import ComplyLayer.Engine.Watcher
import ComplyLayer.Theory.Runs

/-!
# What the poll survives

`poll_once` catches `SnapshotError`, and `compile_snapshot` raises it for an expression that is
missing or does not validate. Whatever else a load ends in goes through `poll_once` and ends the
loop; the cache is as it was in every case.
-/

namespace ComplyLayer

open Theory

/-- A rule can be made of the entry: its expression validates, and its severity and its state are
among the known ones. -/
def WellFormedEntry (py : Python) (entry : Value) : Prop :=
  ∃ fields source tree, entry = .dict fields ∧
    fields.lookup "expression" = some (.str source) ∧ validateSource py source = .ok tree ∧
    (fields.lookup "id").isSome ∧
    (∃ severity : Severity, fields.lookup "severity" = some (.str severity.str)) ∧
    ∃ state : State, (fields.lookup "state").getD (.str "active") = .str state.str

/-- The expression of the entry is missing, empty or not valid. -/
def RefusedEntry (py : Python) (entry : Value) : Prop :=
  ∃ fields, entry = .dict fields ∧
    ∀ expression, fields.lookup "expression" = some expression → expression.truthy = false ∨
      ∃ source e, expression = .str source ∧ validateSource py source = .error (.refused e)

/-- What the rule of an entry is sorted by. -/
def entryKey : Value → Value
  | .dict fields =>
    .tuple [(fields.lookup "priority").getD (.int 0), (fields.lookup "id").getD .none]
  | _ => .none

/-- The map is empty, or every value of it can be iterated over. -/
def ListsWellFormed (lists : Value) : Prop :=
  lists.truthy = false ∨ ∃ entries, lists = .dict entries ∧
    ∀ entry ∈ entries, entry.2.tuple?.isSome

namespace Load

def version? : Load → Option Nat
  | .published version _ _ => some version
  | _ => none

/-- A version that compiles whole. -/
def WellFormed (py : Python) : Load → Prop
  | .published _ rules lists => ∃ entries, rules.tuple? = some entries ∧
      (∀ entry ∈ entries, WellFormedEntry py entry) ∧
      (entries.map entryKey).Pairwise Value.Comparable ∧ ListsWellFormed lists
  | _ => False

/-- A version the first bad entry of which is bad for its expression. -/
def Refused (py : Python) : Load → Prop
  | .published _ rules _ => ∃ before entry after, rules.tuple? = some (before ++ entry :: after) ∧
      (∀ entry ∈ before, WellFormedEntry py entry) ∧ RefusedEntry py entry
  | _ => False

/-- A well-formed version that is not the one held. -/
def New (py : Python) (held : Option Nat) (load : Load) : Prop :=
  load.WellFormed py ∧ load.version? ≠ held

/-- Nothing published, the version held, a well-formed version, or one refused for an
expression. -/
def Tolerated (py : Python) (held : Option Nat) (load : Load) : Prop :=
  load = .nothing ∨ (∃ version rules lists, load = .published version rules lists ∧
    held = some version) ∨ load.WellFormed py ∨ load.Refused py

/-- What the load compiles to. -/
def compile (py : Python) : Load → Option LoadedRuleSet
  | .published version rules lists =>
    (RuleSetCache.compilePublished py version rules lists).toOption
  | _ => none

end Load

/-- After the loads, the cache holds the last rule set that compiled whole, or what it held at the
start when none did. -/
def HoldsLast (py : Python) (start current : Option LoadedRuleSet) (loads : List Load) : Prop :=
  (∃ before load after loaded, loads = before ++ load :: after ∧ load.compile py = some loaded ∧
    current = some loaded ∧ ∀ later ∈ after, ¬ later.New py (some loaded.version)) ∨
  current = start ∧ ∀ load ∈ loads, ¬ load.New py (start.map (·.version))

/-- The poll survives the loads. -/
structure PollsOn (py : Python) (watcher : VersionWatcher) (loads : List Load) : Prop where
  /-- Every poll returns. -/
  returns : ∀ before load after u, loads = before ++ load :: after →
    run (VersionWatcher.pollStep py) watcher before = some u →
    ∃ swapped, (u.pollOnce py load).1 = .ok swapped
  keeps : ∀ before load after u, loads = before ++ load :: after →
    run (VersionWatcher.pollStep py) watcher before = some u →
    HoldsLast py watcher.cache.current (u.pollOnce py load).2.cache.current (before ++ [load])
  /-- A new version that is well-formed is installed by the poll that loads it. -/
  installs : ∀ before load after u, loads = before ++ load :: after →
    run (VersionWatcher.pollStep py) watcher before = some u → load.New py u.cache.version →
    ∃ loaded, load.compile py = some loaded ∧
      u.pollOnce py load = (.ok true, ⟨⟨some loaded⟩, u.polls + 1⟩)
  /-- The loop takes its turn for every load. -/
  goesOn : ∃ u, run (VersionWatcher.pollStep py) watcher loads = some u

section
variable {py : Python} {fields : List (String × Value)} {entry : Value}

/-! ## One entry -/

theorem entryTree_eq_ok_iff : entryTree py version fields = .ok tree ↔
    ∃ source, fields.lookup "expression" = some (.str source) ∧
      validateSource py source = .ok tree := by
  unfold entryTree
  dsimp only
  split
  · rename_i hnone
    simp [hnone]
  · rename_i source hsource
    simp [hsource, mapError_eq_ok]
  · rename_i value hne hvalue
    have hno : ∀ source, value ≠ .str source := hne
    split <;> simp [hvalue, hno]

theorem entryTree_eq_snapshot_iff :
    (∃ e, entryTree py version fields = .error (.snapshot e)) ↔
      ∀ expression, fields.lookup "expression" = some expression → expression.truthy = false ∨
        ∃ source e, expression = .str source ∧ validateSource py source = .error (.refused e) := by
  unfold entryTree
  dsimp only
  split
  · rename_i hnone
    simp [hnone]
  · rename_i source hsource
    rw [hsource]
    cases hvalid : validateSource py source with
    | ok tree =>
      have htruthy : (Value.str source).truthy := by
        rw [Value.truthy, bne_iff_ne]
        rintro rfl
        cases hvalid
      simp [Except.mapError, htruthy, hvalid]
    | error e =>
      cases e with
      | refused e => simp [Except.mapError, hvalid]
      | memoryError =>
        have htruthy : (Value.str source).truthy := by
          rw [Value.truthy, bne_iff_ne]
          rintro rfl
          cases hvalid
        simp [Except.mapError, htruthy, hvalid]
  · rename_i value hne hvalue
    rw [hvalue]
    have hno : ∀ source, value ≠ .str source := fun source h => hne source h
    cases htruthy : value.truthy <;> simp [hno, htruthy]

theorem entryRule_eq_ok_iff : (∃ rule, entryRule fields tree = .ok rule) ↔
    (fields.lookup "id").isSome ∧
    (∃ severity : Severity, fields.lookup "severity" = some (.str severity.str)) ∧
    ∃ state : State, (fields.lookup "state").getD (.str "active") = .str state.str := by
  constructor
  · rintro ⟨rule, h⟩
    obtain ⟨id, hid, h⟩ := bind_eq_ok.mp h
    obtain ⟨severity, hseverity, h⟩ := bind_eq_ok.mp h
    obtain ⟨value, hvalue, hseverity⟩ := bind_eq_ok.mp hseverity
    obtain ⟨state, hstate, -⟩ := bind_eq_ok.mp h
    refine ⟨Option.isSome_iff_exists.mpr ⟨id, getItem_eq_ok_iff.mp hid⟩, ⟨severity, ?_⟩, state,
      stateOf_eq_ok_iff.mp hstate⟩
    rw [getItem_eq_ok_iff.mp hvalue, severityOf_eq_ok_iff.mp hseverity]
  · rintro ⟨hid, ⟨severity, hseverity⟩, state, hstate⟩
    obtain ⟨id, hid⟩ := Option.isSome_iff_exists.mp hid
    have hseverity : (getItem fields "severity" >>= severityOf) = .ok severity :=
      bind_eq_ok.mpr ⟨_, getItem_eq_ok_iff.mpr hseverity, severityOf_eq_ok_iff.mpr rfl⟩
    exact ⟨_, bind_eq_ok.mpr ⟨id, getItem_eq_ok_iff.mpr hid, bind_eq_ok.mpr ⟨severity, hseverity,
      bind_eq_ok.mpr ⟨state, stateOf_eq_ok_iff.mpr hstate, rfl⟩⟩⟩⟩

/-- Nothing but the expression makes an entry raise `SnapshotError`. -/
theorem entryRule_ne_snapshot (fields : List (String × Value)) (tree : Node) (e : SnapshotError) :
    entryRule fields tree ≠ .error (.snapshot e) := by
  intro h
  rcases bind_eq_error.mp h with h | ⟨id, -, h⟩
  · unfold getItem at h
    split at h <;> cases h
  · rcases bind_eq_error.mp h with h | ⟨severity, -, h⟩
    · rcases bind_eq_error.mp h with h | ⟨value, -, h⟩
      · unfold getItem at h
        split at h <;> cases h
      · unfold severityOf at h
        split at h
        · split at h <;> cases h
        · cases h
    · rcases bind_eq_error.mp h with h | ⟨state, -, h⟩
      · unfold stateOf at h
        split at h
        · split at h <;> cases h
        · cases h
      · cases h

/-- An entry makes a rule exactly when it is well-formed. -/
theorem uncheckedEntry_eq_ok_iff :
    (∃ rule, uncheckedEntry py version entry = .ok rule) ↔ WellFormedEntry py entry := by
  cases entry with
  | dict fields =>
    constructor
    · rintro ⟨rule, h⟩
      obtain ⟨tree, htree, h⟩ := bind_eq_ok.mp h
      obtain ⟨source, hsource, hvalid⟩ := entryTree_eq_ok_iff.mp htree
      exact ⟨fields, source, tree, rfl, hsource, hvalid, entryRule_eq_ok_iff.mp ⟨rule, h⟩⟩
    · rintro ⟨_, source, tree, ⟨⟩, hsource, hvalid, hfields⟩
      obtain ⟨rule, hrule⟩ := entryRule_eq_ok_iff.mpr hfields
      exact ⟨rule, bind_eq_ok.mpr ⟨tree, entryTree_eq_ok_iff.mpr ⟨source, hsource, hvalid⟩,
        hrule⟩⟩
  | _ =>
    constructor
    · rintro ⟨rule, h⟩
      cases h
    · rintro ⟨fields, source, tree, h, -⟩
      cases h

theorem uncheckedEntry_eq_snapshot_iff :
    (∃ e, uncheckedEntry py version entry = .error (.snapshot e)) ↔ RefusedEntry py entry := by
  cases entry with
  | dict fields =>
    constructor
    · rintro ⟨e, h⟩
      rcases bind_eq_error.mp h with h | ⟨tree, -, h⟩
      · exact ⟨fields, rfl, entryTree_eq_snapshot_iff.mp ⟨e, h⟩⟩
      · exact absurd h (entryRule_ne_snapshot fields tree e)
    · rintro ⟨_, ⟨⟩, h⟩
      obtain ⟨e, h⟩ := entryTree_eq_snapshot_iff.mpr h
      exact ⟨e, bind_eq_error.mpr (.inl h)⟩
  | _ =>
    constructor
    · rintro ⟨e, h⟩
      cases h
    · rintro ⟨fields, h, -⟩
      cases h

/-- A rule is sorted by the key of its entry. -/
theorem sortKey_of_uncheckedEntry {rule : UncheckedRule}
    (h : uncheckedEntry py version entry = .ok rule) : rule.sortKey = entryKey entry := by
  cases entry with
  | dict fields =>
    obtain ⟨tree, -, h⟩ := bind_eq_ok.mp h
    obtain ⟨id, hid, h⟩ := bind_eq_ok.mp h
    obtain ⟨severity, -, h⟩ := bind_eq_ok.mp h
    obtain ⟨state, -, h⟩ := bind_eq_ok.mp h
    cases pure_eq_ok.mp h
    rw [UncheckedRule.sortKey, entryKey, getItem_eq_ok_iff.mp hid]
    rfl
  | _ => cases h

/-! ## A whole version -/

theorem sortRules_eq_ok_iff {rules : List UncheckedRule} : (∃ sorted, sortRules rules = .ok sorted) ↔
    (rules.map UncheckedRule.sortKey).Pairwise Value.Comparable := by
  unfold sortRules
  rw [List.pairwise_map]
  split <;> simp_all

theorem uncheckedSnapshot_eq_ok_iff : (∃ loaded, uncheckedSnapshot py version rules = .ok loaded) ↔
    ∃ entries, rules.tuple? = some entries ∧ (∀ entry ∈ entries, WellFormedEntry py entry) ∧
      (entries.map entryKey).Pairwise Value.Comparable := by
  unfold uncheckedSnapshot
  cases rules.tuple? with
  | none => simp
  | some entries =>
    have hkeys {compiled} (h : entries.mapM (uncheckedEntry py version) = .ok compiled) :
        compiled.map UncheckedRule.sortKey = entries.map entryKey := by
      have hforall := mapM_eq_ok_iff.mp h
      clear h
      induction hforall with
      | nil => rfl
      | cons hentry _ ih => rw [List.map_cons, List.map_cons, ih, sortKey_of_uncheckedEntry hentry]
    constructor
    · rintro ⟨loaded, h⟩
      obtain ⟨compiled, hcompiled, h⟩ := bind_eq_ok.mp h
      refine ⟨entries, rfl, fun entry hentry => ?_, ?_⟩
      · exact uncheckedEntry_eq_ok_iff.mp (exists_mapM_ok_iff.mp ⟨compiled, hcompiled⟩ entry hentry)
      · rw [← hkeys hcompiled]
        exact sortRules_eq_ok_iff.mp ⟨loaded, h⟩
    · rintro ⟨_, ⟨⟩, hentries, hsorted⟩
      obtain ⟨compiled, hcompiled⟩ := exists_mapM_ok_iff.mpr fun entry hentry =>
        uncheckedEntry_eq_ok_iff.mpr (hentries entry hentry)
      rw [← hkeys hcompiled] at hsorted
      obtain ⟨sorted, hsorted⟩ := sortRules_eq_ok_iff.mpr hsorted
      exact ⟨sorted, bind_eq_ok.mpr ⟨compiled, hcompiled, hsorted⟩⟩

theorem uncheckedSnapshot_eq_snapshot_iff :
    (∃ e, uncheckedSnapshot py version rules = .error (.snapshot e)) ↔
      ∃ before entry after, rules.tuple? = some (before ++ entry :: after) ∧
        (∀ e ∈ before, WellFormedEntry py e) ∧ RefusedEntry py entry := by
  unfold uncheckedSnapshot
  cases rules.tuple? with
  | none => simp
  | some entries =>
    constructor
    · rintro ⟨e, h⟩
      rcases bind_eq_error.mp h with h | ⟨compiled, -, h⟩
      · obtain ⟨before, entry, after, rfl, hbefore, hentry⟩ := mapM_eq_error_iff.mp h
        exact ⟨before, entry, after, rfl,
          fun a ha => uncheckedEntry_eq_ok_iff.mp (hbefore a ha),
          uncheckedEntry_eq_snapshot_iff.mp ⟨e, hentry⟩⟩
      · unfold sortRules at h
        split at h <;> cases h
    · rintro ⟨before, entry, after, ⟨⟩, hbefore, hentry⟩
      obtain ⟨e, he⟩ := uncheckedEntry_eq_snapshot_iff.mpr hentry
      exact ⟨e, bind_eq_error.mpr (.inl (mapM_eq_error_iff.mpr ⟨before, entry, after, rfl,
        fun a ha => uncheckedEntry_eq_ok_iff.mpr (hbefore a ha), he⟩))⟩

theorem tupleEntry_eq_ok_iff {entry : String × Value} :
    (∃ tuple, tupleEntry entry = .ok tuple) ↔ entry.2.tuple?.isSome := by
  unfold tupleEntry
  cases entry.2.tuple? <;> simp

theorem uncheckedLists_eq_ok_iff :
    (∃ loaded, uncheckedLists lists = .ok loaded) ↔ ListsWellFormed lists := by
  unfold uncheckedLists ListsWellFormed
  cases htruthy : lists.truthy with
  | false => simp
  | true =>
    rw [if_pos rfl]
    split
    · rename_i entries
      have hentries : (∃ tuples, entries.mapM tupleEntry = .ok tuples) ↔
          ∀ entry ∈ entries, entry.2.tuple?.isSome := by
        rw [exists_mapM_ok_iff]
        exact forall₂_congr fun entry _ => tupleEntry_eq_ok_iff
      constructor
      · rintro ⟨loaded, h⟩
        obtain ⟨tuples, htuples, -⟩ := bind_eq_ok.mp h
        exact .inr ⟨entries, rfl, hentries.mp ⟨tuples, htuples⟩⟩
      · rintro (h | ⟨_, ⟨⟩, h⟩)
        · cases h
        · obtain ⟨tuples, htuples⟩ := hentries.mpr h
          exact ⟨_, bind_eq_ok.mpr ⟨tuples, htuples, rfl⟩⟩
    · rename_i hno
      constructor
      · rintro ⟨loaded, h⟩
        cases h
      · rintro (h | ⟨entries, rfl, -⟩)
        · cases h
        · exact absurd rfl (hno entries)

theorem uncheckedLists_ne_snapshot (lists : Value) (e : SnapshotError) :
    uncheckedLists lists ≠ .error (.snapshot e) := by
  intro h
  unfold uncheckedLists at h
  split at h
  · split at h
    · rcases bind_eq_error.mp h with h | ⟨tuples, -, h⟩
      · obtain ⟨before, entry, after, -, -, hentry⟩ := mapM_eq_error_iff.mp h
        unfold tupleEntry at hentry
        split at hentry <;> cases hentry
      · cases h
    · cases h
  · cases h

/-- A version compiles whole exactly when it is well-formed. -/
theorem Load.exists_compile_iff {load : Load} :
    (∃ loaded, load.compile py = some loaded) ↔ load.WellFormed py := by
  cases load with
  | published version rules lists =>
    constructor
    · rintro ⟨loaded, h⟩
      obtain ⟨rules', hrules, h⟩ := bind_eq_ok.mp (toOption_eq_some.mp h)
      obtain ⟨lists', hlists, -⟩ := bind_eq_ok.mp h
      obtain ⟨entries, htuple, hentries, hsorted⟩ := uncheckedSnapshot_eq_ok_iff.mp ⟨rules', hrules⟩
      exact ⟨entries, htuple, hentries, hsorted, uncheckedLists_eq_ok_iff.mp ⟨lists', hlists⟩⟩
    · rintro ⟨entries, htuple, hentries, hsorted, hlists⟩
      obtain ⟨rules', hrules⟩ := uncheckedSnapshot_eq_ok_iff.mpr ⟨entries, htuple, hentries, hsorted⟩
      obtain ⟨lists', hlists⟩ := uncheckedLists_eq_ok_iff.mpr hlists
      exact ⟨⟨version, rules', lists'⟩, toOption_eq_some.mpr (bind_eq_ok.mpr ⟨rules', hrules,
        bind_eq_ok.mpr ⟨lists', hlists, rfl⟩⟩)⟩
  | nothing => exact ⟨fun ⟨_, h⟩ => (by cases h), fun h => h.elim⟩
  | raised => exact ⟨fun ⟨_, h⟩ => (by cases h), fun h => h.elim⟩

theorem compilePublished_eq_snapshot_iff :
    (∃ e, RuleSetCache.compilePublished py version rules lists = .error (.snapshot e)) ↔
      (Load.published version rules lists).Refused py := by
  rw [Load.Refused, ← uncheckedSnapshot_eq_snapshot_iff]
  constructor
  · rintro ⟨e, h⟩
    rcases bind_eq_error.mp h with h | ⟨rules', -, h⟩
    · exact ⟨e, h⟩
    · rcases bind_eq_error.mp h with h | ⟨lists', -, h⟩
      · exact absurd h (uncheckedLists_ne_snapshot lists e)
      · cases h
  · rintro ⟨e, h⟩
    exact ⟨e, bind_eq_error.mpr (.inl h)⟩

/-! ## One poll -/

variable {watcher u : VersionWatcher} {load : Load} {loads : List Load}

/-- A poll that loads a new version that is well-formed installs it. -/
theorem pollOnce_of_new (h : load.New py watcher.cache.version) : ∃ loaded,
    load.compile py = some loaded ∧
    watcher.pollOnce py load = (.ok true, ⟨⟨some loaded⟩, watcher.polls + 1⟩) := by
  obtain ⟨loaded, hcompile⟩ := Load.exists_compile_iff.mpr h.1
  refine ⟨loaded, hcompile, ?_⟩
  cases load with
  | published version rules lists =>
    have hversion : watcher.cache.version ≠ some version := Ne.symm h.2
    rw [VersionWatcher.pollOnce,
      RuleSetCache.refresh_of_ok hversion (toOption_eq_some.mp hcompile)]
  | nothing => cases hcompile
  | raised => cases hcompile

/-- Any other poll leaves the cache as it was. -/
theorem pollOnce_of_not_new (h : ¬ load.New py watcher.cache.version) :
    (watcher.pollOnce py load).2.cache = watcher.cache := by
  unfold VersionWatcher.pollOnce
  cases load with
  | nothing => rfl
  | raised => rfl
  | published version rules lists =>
    by_cases hversion : watcher.cache.version = some version
    · rw [RuleSetCache.refresh_of_version hversion]
    · cases hcompile : RuleSetCache.compilePublished py version rules lists with
      | ok loaded =>
        refine absurd ⟨?_, Ne.symm hversion⟩ h
        exact Load.exists_compile_iff.mp ⟨loaded, toOption_eq_some.mpr hcompile⟩
      | error e =>
        rw [RuleSetCache.refresh_of_error hversion hcompile]
        cases e <;> rfl

/-- A poll returns exactly when the load is one it tolerates. -/
theorem pollOnce_returns_iff : (∃ swapped, (watcher.pollOnce py load).1 = .ok swapped) ↔
    load.Tolerated py watcher.cache.version := by
  unfold VersionWatcher.pollOnce
  cases load with
  | nothing => exact ⟨fun _ => .inl rfl, fun _ => ⟨false, rfl⟩⟩
  | raised =>
    constructor
    · rintro ⟨swapped, h⟩
      cases h
    · rintro (h | ⟨version, rules, lists, h, -⟩ | h | h)
      · cases h
      · cases h
      · exact h.elim
      · exact h.elim
  | published version rules lists =>
    by_cases hversion : watcher.cache.version = some version
    · rw [RuleSetCache.refresh_of_version hversion]
      exact ⟨fun _ => .inr (.inl ⟨version, rules, lists, rfl, hversion⟩), fun _ => ⟨false, rfl⟩⟩
    · -- Of the versions not held, those that compile and those that raise `SnapshotError`.
      have htolerated : (Load.published version rules lists).Tolerated py watcher.cache.version ↔
          (∃ loaded, RuleSetCache.compilePublished py version rules lists = .ok loaded) ∨
            ∃ e, RuleSetCache.compilePublished py version rules lists = .error (.snapshot e) := by
        rw [compilePublished_eq_snapshot_iff]
        have hwhole : (∃ loaded, (Load.published version rules lists).compile py = some loaded) ↔ _ :=
          Load.exists_compile_iff
        simp only [Load.compile, toOption_eq_some] at hwhole
        rw [hwhole]
        constructor
        · rintro (h | ⟨version', rules', lists', h, hheld⟩ | h | h)
          · cases h
          · cases h
            exact absurd hheld hversion
          · exact .inl h
          · exact .inr h
        · rintro (h | h)
          · exact .inr (.inr (.inl h))
          · exact .inr (.inr (.inr h))
      rw [htolerated]
      cases hcompile : RuleSetCache.compilePublished py version rules lists with
      | ok loaded =>
        rw [RuleSetCache.refresh_of_ok hversion hcompile]
        exact ⟨fun _ => .inl ⟨loaded, rfl⟩, fun _ => ⟨true, rfl⟩⟩
      | error e =>
        rw [RuleSetCache.refresh_of_error hversion hcompile]
        cases e <;> simp

theorem pollStep_eq_some_iff : VersionWatcher.pollStep py watcher load = some u ↔
    (∃ swapped, (watcher.pollOnce py load).1 = .ok swapped) ∧
      (watcher.pollOnce py load).2 = u := by
  unfold VersionWatcher.pollStep
  cases watcher.pollOnce py load with
  | mk result after => cases result <;> simp

/-- The poll that finds the newest version published installs its rules and lists. -/
theorem pollOnce_published {db : ManagementDb} {version : RuleSetVersion} {ruleset : RuleSet}
    (hload : db.loadPublished tenantId = some version)
    (hrules : compileSnapshot py version.version version.rulesSnapshot = .ok ruleset)
    (hlists : tupleLists version.listsSnapshot = .ok lists)
    (hversion : watcher.cache.version ≠ some version.version) :
    watcher.pollOnce py (db.publishedLoad tenantId) = (.ok true,
      ⟨⟨some ⟨version.version, ruleset.rules.map CompiledRule.unchecked, lists⟩⟩,
        watcher.polls + 1⟩) := by
  rw [ManagementDb.publishedLoad, hload, VersionWatcher.pollOnce,
    RuleSetCache.refresh_of_ok hversion (compile_load hrules hlists)]

/-! ## The loop -/

/-- Holding the last rule set is kept by a poll, whatever it ends in. -/
theorem HoldsLast.poll {start : Option LoadedRuleSet}
    (h : HoldsLast py start watcher.cache.current loads) (load : Load) :
    HoldsLast py start (watcher.pollOnce py load).2.cache.current (loads ++ [load]) := by
  by_cases hnew : load.New py watcher.cache.version
  · obtain ⟨loaded, hcompile, hpoll⟩ := pollOnce_of_new hnew
    rw [hpoll]
    exact .inl ⟨loads, load, [], loaded, rfl, hcompile, rfl, fun _ h => (by cases h)⟩
  · rw [pollOnce_of_not_new hnew]
    rcases h with ⟨before, last, after, loaded, rfl, hcompile, hcurrent, hafter⟩ | ⟨hcurrent, hold⟩
    · refine .inl ⟨before, last, after ++ [load], loaded, by simp, hcompile, hcurrent, ?_⟩
      rw [List.forall_mem_append, List.forall_mem_singleton]
      refine ⟨hafter, ?_⟩
      rw [RuleSetCache.version, hcurrent] at hnew
      exact hnew
    · refine .inr ⟨hcurrent, ?_⟩
      rw [List.forall_mem_append, List.forall_mem_singleton]
      refine ⟨hold, ?_⟩
      rw [RuleSetCache.version, hcurrent] at hnew
      exact hnew

theorem holdsLast_run (hrun : run (VersionWatcher.pollStep py) watcher loads = some u) :
    HoldsLast py watcher.cache.current u.cache.current loads := by
  induction loads using List.reverseRecOn generalizing u with
  | nil =>
    cases hrun
    exact .inr ⟨rfl, List.forall_mem_nil _⟩
  | append_singleton loads load ih =>
    obtain ⟨v, hrun, hstep⟩ := run_concat_eq_some.mp hrun
    rw [← (pollStep_eq_some_iff.mp hstep).2]
    exact (ih hrun).poll load

/-- **What the poll survives.** The polls of a sequence of loads all return, and the loop goes on
with the last rule set that compiled whole, exactly when each load is tolerated where it comes. -/
theorem polls_on_iff (py : Python) (watcher : VersionWatcher) (loads : List Load) :
    PollsOn py watcher loads ↔
      Along (VersionWatcher.pollStep py) (fun w load => load.Tolerated py w.cache.version) watcher
        loads := by
  rw [along_iff_forall]
  constructor
  · intro h before load after u hloads hrun
    exact pollOnce_returns_iff.mp (h.returns before load after u hloads hrun)
  · intro h
    refine ⟨?_, ?_, ?_, ?_⟩
    · intro before load after u hloads hrun
      exact pollOnce_returns_iff.mpr (h before load after u hloads hrun)
    · intro before load after u hloads hrun
      exact (holdsLast_run hrun).poll load
    · intro before load after u hloads hrun hnew
      exact pollOnce_of_new hnew
    · rw [exists_run_iff, along_iff_forall]
      intro before load after u hloads hrun
      have hreturns := pollOnce_returns_iff.mpr (h before load after u hloads hrun)
      exact Option.isSome_iff_exists.mpr ⟨_, pollStep_eq_some_iff.mpr ⟨hreturns, rfl⟩⟩

end

/-- The first load of a worker is a database error. -/
theorem database_error_ends_poll : ¬ PollsOn (.reading "" (.name "")) {} [.raised] := by
  intro h
  obtain ⟨swapped, hreturns⟩ := h.returns [] .raised [] {} rfl rfl
  cases hreturns

end ComplyLayer
