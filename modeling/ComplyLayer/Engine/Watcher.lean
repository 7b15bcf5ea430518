import ComplyLayer.Engine.Cache
import ComplyLayer.Theory.Outcomes

/-!
# The rule set cache and its poll

`engine/cache.py`, on whatever `load` returns. A stored snapshot is any JSON: here the entries are
`Value`s, and so are the fields of a rule that nothing converts.
-/

namespace ComplyLayer

open Theory

/-- `State(value)`, `none` where it raises `ValueError`. -/
def State.ofStr? (value : String) : Option State :=
  [State.draft, .shadow, .active, .archived].find? fun state => state.str = value

theorem State.ofStr?_eq_some_iff {state : State} :
    State.ofStr? text = some state ↔ state.str = text := by
  constructor
  · intro h
    simpa using List.find?_some h
  · rintro rfl
    cases state <;> rfl

mutual
/-- Python's `<` on what JSON holds; `none` where it raises `TypeError`. -/
def Value.pyLt? : Value → Value → Option Bool
  | .str a, .str b => some (decide (a < b))
  | .list xs, .list ys => Value.pyLtList? xs ys
  | .tuple xs, .tuple ys => Value.pyLtList? xs ys
  | a, b =>
    match a.real?, b.real? with
    | some x, some y => some (decide (x < y))
    | _, _ => Option.none

/-- The first elements that differ are compared. -/
def Value.pyLtList? : List Value → List Value → Option Bool
  | [], ys => some (!ys.isEmpty)
  | _ :: _, [] => some false
  | x :: xs, y :: ys => if x.pyEq y then Value.pyLtList? xs ys else x.pyLt? y
end

/-- A `CompiledRule` whose fields are as the snapshot has them. -/
structure UncheckedRule where
  id : Value
  name : Value
  tree : Node
  severity : Severity
  state : State
  priority : Value
  regulatoryReference : Value
  customerMessage : Value

def UncheckedRule.sortKey (rule : UncheckedRule) : Value := .tuple [rule.priority, rule.id]

inductive SnapshotError where
  | failedValidation (ruleId : Value) (version : Nat) (e : RuleSyntaxError)
  | missingExpression (version : Nat)

/-- What a refresh raises. -/
inductive LoadError where
  | snapshot (e : SnapshotError)
  | keyError (key : String)
  | typeError
  | attributeError
  | valueError
  | memoryError
  /-- What `load` raised. -/
  | load

/-! ## `compile_snapshot` -/

/-- `validate_source(entry["expression"])`, under the two `except` clauses. An expression that is
not a text is the empty rule when it is falsy, and has no `strip` otherwise. -/
def entryTree (py : Python) (version : Nat) (fields : List (String × Value)) :
    Except LoadError Node :=
  let failed : SourceError → LoadError
    | .refused e => .snapshot (.failedValidation ((fields.lookup "id").getD (.str "?")) version e)
    | .memoryError => .memoryError
  match fields.lookup "expression" with
  | none => .error (.snapshot (.missingExpression version))
  | some (.str source) => (validateSource py source).mapError failed
  | some value => if value.truthy then .error .attributeError else .error (failed (.refused .emptyRule))

/-- `fields[key]`. -/
def getItem (fields : List (String × Value)) (key : String) : Except LoadError Value :=
  match fields.lookup key with
  | some value => .ok value
  | none => .error (.keyError key)

theorem getItem_eq_ok_iff : getItem fields key = .ok value ↔ fields.lookup key = some value := by
  unfold getItem
  cases fields.lookup key <;> simp

/-- `Severity(value)`. -/
def severityOf : Value → Except LoadError Severity
  | .str text =>
    match Severity.ofStr? text with
    | some severity => .ok severity
    | none => .error .valueError
  | _ => .error .valueError

theorem severityOf_eq_ok_iff {severity : Severity} :
    severityOf value = .ok severity ↔ value = .str severity.str := by
  unfold severityOf
  cases value with
  | str text =>
    dsimp only
    rw [Value.str.injEq, eq_comm (a := text), ← Severity.ofStr?_eq_some_iff]
    cases Severity.ofStr? text <;> simp
  | _ => simp

/-- `State(value)`. -/
def stateOf : Value → Except LoadError State
  | .str text =>
    match State.ofStr? text with
    | some state => .ok state
    | none => .error .valueError
  | _ => .error .valueError

theorem stateOf_eq_ok_iff {state : State} : stateOf value = .ok state ↔ value = .str state.str := by
  unfold stateOf
  cases value with
  | str text =>
    dsimp only
    rw [Value.str.injEq, eq_comm (a := text), ← State.ofStr?_eq_some_iff]
    cases State.ofStr? text <;> simp
  | _ => simp

/-- The rule of an entry, once its expression has been compiled. -/
def entryRule (fields : List (String × Value)) (tree : Node) :
    Except LoadError UncheckedRule := do
  let id ← getItem fields "id"
  let severity ← getItem fields "severity" >>= severityOf
  let state ← stateOf ((fields.lookup "state").getD (.str "active"))
  pure
    { id := id
      name := (fields.lookup "name").getD id
      tree := tree
      severity := severity
      state := state
      priority := (fields.lookup "priority").getD (.int 0)
      regulatoryReference := (fields.lookup "regulatory_reference").getD (.str "")
      customerMessage := (fields.lookup "customer_message").getD (.str "") }

/-- An entry that is not an object cannot be indexed by a text. -/
def uncheckedEntry (py : Python) (version : Nat) : Value → Except LoadError UncheckedRule
  | .dict fields => do
    let tree ← entryTree py version fields
    entryRule fields tree
  | _ => .error .typeError

/-- The two keys can be compared. -/
def Value.Comparable (a b : Value) : Prop := (b.pyLt? a).isSome

instance (a b : Value) : Decidable (a.Comparable b) := inferInstanceAs (Decidable (_ = true))

/-- `sorted(rules, key=lambda r: r.sort_key)`. A sort compares the neighbours of its result, and
where some keys cannot be compared two of them are neighbours, so it raises `TypeError` whenever
two keys cannot be compared. -/
def sortRules (rules : List UncheckedRule) : Except LoadError (List UncheckedRule) :=
  if rules.Pairwise fun a b => a.sortKey.Comparable b.sortKey then
    .ok (rules.insertionSort fun a b => b.sortKey.pyLt? a.sortKey ≠ some true)
  else .error .typeError

/-- `compile_snapshot`, the rules of its result. -/
def uncheckedSnapshot (py : Python) (version : Nat) (rules : Value) :
    Except LoadError (List UncheckedRule) :=
  match rules.tuple? with
  | some entries => do
    let compiled ← entries.mapM (uncheckedEntry py version)
    sortRules compiled
  | none => .error .typeError

/-- `name: tuple(values)`. -/
def tupleEntry (entry : String × Value) : Except LoadError (String × List Value) :=
  match entry.2.tuple? with
  | some xs => .ok (entry.1, xs)
  | none => .error .typeError

/-- `{name: tuple(values) for name, values in (lists_snapshot or {}).items()}`. -/
def uncheckedLists (lists : Value) : Except LoadError (Dict String (List Value)) :=
  if lists.truthy then
    match lists with
    | .dict entries => do
      let tuples ← entries.mapM tupleEntry
      pure (.ofList tuples)
    | _ => .error .attributeError
  else .ok ∅

/-! ## `RuleSetCache` and `VersionWatcher` -/

structure LoadedRuleSet where
  version : Nat
  rules : List UncheckedRule
  lists : Dict String (List Value)

/-- What a call of `load` ends in: nothing published, an exception, or a version. -/
inductive Load where
  | nothing
  | raised
  | published (version : Nat) (rules lists : Value)

/-- One tenant's compiled rule set, held in a worker's memory. -/
structure RuleSetCache where
  current : Option LoadedRuleSet := none

namespace RuleSetCache

def version (cache : RuleSetCache) : Option Nat := cache.current.map (·.version)

/-- What `refresh` makes of a version. -/
def compilePublished (py : Python) (version : Nat) (rules lists : Value) :
    Except LoadError LoadedRuleSet := do
  let rules ← uncheckedSnapshot py version rules
  let lists ← uncheckedLists lists
  pure ⟨version, rules, lists⟩

/-- Load the published version if it differs from the one in memory. The swap comes last. -/
def refresh (py : Python) (cache : RuleSetCache) (load : Load) (force : Bool := false) :
    Except LoadError Bool × RuleSetCache :=
  match load with
  | .nothing => (.ok false, cache)
  | .raised => (.error .load, cache)
  | .published version rules lists =>
    if ¬ force ∧ cache.version = some version then (.ok false, cache)
    else
      match compilePublished py version rules lists with
      | .ok loaded => (.ok true, { cache with current := some loaded })
      | .error e => (.error e, cache)

variable {py : Python} {cache : RuleSetCache} {loaded : LoadedRuleSet} {version : Nat}

theorem refresh_of_version (h : cache.version = some version) :
    cache.refresh py (.published version rules lists) = (.ok false, cache) :=
  if_pos ⟨by simp, h⟩

theorem refresh_of_ok (h : cache.version ≠ some version)
    (hcompile : compilePublished py version rules lists = .ok loaded) :
    cache.refresh py (.published version rules lists) =
      (.ok true, { cache with current := some loaded }) := by
  rw [refresh, if_neg fun hversion => h hversion.2, hcompile]

theorem refresh_of_error (h : cache.version ≠ some version)
    (hcompile : compilePublished py version rules lists = .error e) :
    cache.refresh py (.published version rules lists) = (.error e, cache) := by
  rw [refresh, if_neg fun hversion => h hversion.2, hcompile]

end RuleSetCache

structure VersionWatcher where
  cache : RuleSetCache := {}
  polls : Nat := 0

namespace VersionWatcher

def pollOnce (py : Python) (watcher : VersionWatcher) (load : Load) :
    Except LoadError Bool × VersionWatcher :=
  match watcher.cache.refresh py load with
  | (.error (.snapshot _), cache) => (.ok false, ⟨cache, watcher.polls + 1⟩)
  | (result, cache) => (result, ⟨cache, watcher.polls + 1⟩)

/-- A turn of `_poll_loop`, `none` where what the poll raises ends it. -/
def pollStep (py : Python) (watcher : VersionWatcher) (load : Load) : Option VersionWatcher :=
  match watcher.pollOnce py load with
  | (.ok _, watcher) => some watcher
  | (.error _, _) => none

end VersionWatcher

/-! ## What the publisher stores -/

/-- The entry of a rule as JSON. -/
def RuleSnapshot.fields (entry : RuleSnapshot) : List (String × Value) :=
  [("id", .str entry.id), ("name", .str entry.name), ("expression", .str entry.expression),
    ("severity", .str entry.severity), ("state", .str entry.state.str),
    ("priority", .int entry.priority), ("regulatory_reference", .str entry.regulatoryReference),
    ("customer_message", .str entry.customerMessage)]

/-- `_load_published`. -/
def ManagementDb.publishedLoad (db : ManagementDb) (tenantId : String) : Load :=
  match db.loadPublished tenantId with
  | some version =>
    .published version.version (.list (version.rulesSnapshot.map fun entry => .dict entry.fields))
      (.dict version.listsSnapshot.entries)
  | none => .nothing

def CompiledRule.unchecked (rule : CompiledRule) : UncheckedRule where
  id := .str rule.id
  name := .str rule.name
  tree := rule.tree
  severity := rule.severity
  state := rule.state
  priority := .int rule.priority
  regulatoryReference := .str rule.regulatoryReference
  customerMessage := .str rule.customerMessage

section
variable {py : Python} {version : RuleSetVersion} {ruleset : RuleSet}

theorem entryTree_fields_iff {entry : RuleSnapshot} :
    entryTree py number entry.fields = .ok tree ↔
      validateSource py entry.expression = .ok tree := by
  have hexpression : entry.fields.lookup "expression" = some (.str entry.expression) := rfl
  simp only [entryTree, hexpression]
  exact mapError_eq_ok

theorem severityOf_fields (entry : RuleSnapshot) :
    (getItem entry.fields "severity" >>= severityOf) = severityOf (.str entry.severity) := by
  have hseverity : getItem entry.fields "severity" = .ok (.str entry.severity) := rfl
  rw [hseverity]
  rfl

theorem uncheckedEntry_fields {entry : RuleSnapshot} {rule : CompiledRule}
    (h : compileEntry py number entry = .ok rule) :
    uncheckedEntry py number (.dict entry.fields) = .ok rule.unchecked := by
  unfold compileEntry at h
  split at h
  · cases h
  · cases h
  · cases h
  · rename_i tree severity htree hseverity
    cases h
    have hstate : stateOf (.str entry.state.str) = .ok entry.state := stateOf_eq_ok_iff.mpr rfl
    have hseverity : severityOf (.str entry.severity) = .ok severity :=
      severityOf_eq_ok_iff.mpr (congrArg _ (Severity.ofStr?_eq_some_iff.mp hseverity).symm)
    refine bind_eq_ok.mpr ⟨tree, entryTree_fields_iff.mpr htree, bind_eq_ok.mpr ⟨.str entry.id, ?_,
      bind_eq_ok.mpr ⟨severity, (severityOf_fields entry).trans hseverity,
        bind_eq_ok.mpr ⟨entry.state, ?_, ?_⟩⟩⟩⟩
    · simp [getItem, RuleSnapshot.fields]
    · simp [RuleSnapshot.fields, List.lookup_cons, hstate]
    · simp [RuleSnapshot.fields, List.lookup_cons, CompiledRule.unchecked, pure, Except.pure]

/-- Checked keys are compared as `CompiledRule.sortKey` orders them. -/
theorem pyLt?_unchecked (a b : CompiledRule) :
    a.unchecked.sortKey.pyLt? b.unchecked.sortKey = some (decide (a.sortKey < b.sortKey)) := by
  have hlex : a.sortKey < b.sortKey ↔
      a.priority < b.priority ∨ a.priority = b.priority ∧ a.id < b.id := Prod.Lex.toLex_lt_toLex
  have hdecide : decide (a.sortKey < b.sortKey) =
      decide (a.priority < b.priority ∨ a.priority = b.priority ∧ a.id < b.id) :=
    decide_eq_decide.mpr hlex
  rw [hdecide]
  simp only [CompiledRule.unchecked, UncheckedRule.sortKey, Value.pyLt?, Value.pyLtList?,
    Value.pyEq, Value.number?, Value.real?]
  by_cases hpriority : a.priority = b.priority
  · by_cases hid : a.id = b.id
    · simp [hpriority, hid]
    · simp [hpriority, hid]
  · simp [hpriority]

theorem sortRules_unchecked (rules : List CompiledRule) :
    sortRules (rules.map CompiledRule.unchecked) =
      .ok ((sortBy CompiledRule.sortKey rules).map CompiledRule.unchecked) := by
  unfold sortRules
  rw [if_pos]
  · refine congrArg _ (List.map_insertionSort _ _ _ rules fun a _ b _ => ?_).symm
    rw [pyLt?_unchecked]
    simp
  · refine List.pairwise_map.mpr (List.pairwise_of_forall fun a b => ?_)
    rw [Value.Comparable, pyLt?_unchecked]
    rfl

theorem uncheckedLists_of_tupleLists {lists : Dict String Value} (h : tupleLists lists = .ok tuples) :
    uncheckedLists (.dict lists.entries) = .ok tuples := by
  obtain ⟨pairs, hpairs, hdict⟩ := bind_eq_ok.mp h
  cases pure_eq_ok.mp hdict
  have hpairs : lists.entries.mapM tupleEntry = .ok pairs := by
    rw [mapM_eq_ok_iff] at hpairs ⊢
    refine hpairs.imp ?_
    rintro ⟨name, values⟩ pair hpair
    unfold tupleEntry
    dsimp only at hpair ⊢
    cases htuple : values.tuple? with
    | none =>
      rw [htuple] at hpair
      cases hpair
    | some xs =>
      rw [htuple] at hpair
      cases hpair
      rfl
  unfold uncheckedLists
  split
  · exact bind_eq_ok.mpr ⟨pairs, hpairs, rfl⟩
  · rename_i hempty
    have hnil : lists.entries = [] := by simpa [Value.truthy] using hempty
    rw [hnil] at hpairs
    cases hpairs
    rfl

/-- A version that the publisher stored compiles, as JSON, to the rules it compiles to. -/
theorem compile_load
    (hrules : compileSnapshot py version.version version.rulesSnapshot = .ok ruleset)
    (hlists : tupleLists version.listsSnapshot = .ok lists) :
    RuleSetCache.compilePublished py version.version
      (.list (version.rulesSnapshot.map fun entry => .dict entry.fields))
      (.dict version.listsSnapshot.entries) =
      .ok ⟨version.version, ruleset.rules.map CompiledRule.unchecked, lists⟩ := by
  obtain ⟨compiled, hcompiled, hruleset⟩ := bind_eq_ok.mp hrules
  cases pure_eq_ok.mp hruleset
  have hentries : (version.rulesSnapshot.map fun entry => Value.dict entry.fields).mapM
      (uncheckedEntry py version.version) = .ok (compiled.map CompiledRule.unchecked) := by
    rw [mapM_eq_ok_iff, List.forall₂_map_left_iff, List.forall₂_map_right_iff]
    exact (mapM_eq_ok_iff.mp hcompiled).imp fun _ _ => uncheckedEntry_fields
  have hsnapshot : uncheckedSnapshot py version.version
      (.list (version.rulesSnapshot.map fun entry => .dict entry.fields)) =
      .ok ((sortBy CompiledRule.sortKey compiled).map CompiledRule.unchecked) :=
    bind_eq_ok.mpr ⟨_, hentries, sortRules_unchecked compiled⟩
  exact bind_eq_ok.mpr ⟨_, hsnapshot, bind_eq_ok.mpr ⟨lists, uncheckedLists_of_tupleLists hlists, rfl⟩⟩

theorem compileEntry_of_unchecked {entry : RuleSnapshot} {unchecked : UncheckedRule}
    (h : uncheckedEntry py number (.dict entry.fields) = .ok unchecked) :
    ∃ rule, compileEntry py number entry = .ok rule := by
  obtain ⟨tree, htree, hrule⟩ := bind_eq_ok.mp h
  obtain ⟨id, -, hrule⟩ := bind_eq_ok.mp hrule
  obtain ⟨severity, hseverity, -⟩ := bind_eq_ok.mp hrule
  rw [severityOf_fields] at hseverity
  have hstr : entry.severity = severity.str := Value.str.inj (severityOf_eq_ok_iff.mp hseverity)
  have hofStr : Severity.ofStr? entry.severity = some severity :=
    Severity.ofStr?_eq_some_iff.mpr hstr.symm
  rw [compileEntry, entryTree_fields_iff.mp htree, hofStr]
  exact ⟨_, rfl⟩

theorem tupleLists_of_uncheckedLists {lists : Dict String Value} {tuples : Dict String (List Value)}
    (h : uncheckedLists (.dict lists.entries) = .ok tuples) :
    ∃ tuples, tupleLists lists = .ok tuples := by
  have hentries : ∀ entry ∈ lists.entries, ∃ xs, entry.2.tuple? = some xs := by
    intro entry hentry
    unfold uncheckedLists at h
    split at h
    · obtain ⟨pairs, hpairs, -⟩ := bind_eq_ok.mp h
      obtain ⟨pair, hpair⟩ := exists_mapM_ok_iff.mp ⟨pairs, hpairs⟩ entry hentry
      unfold tupleEntry at hpair
      split at hpair
      · exact ⟨_, ‹_›⟩
      · cases hpair
    · rename_i hempty
      have hnil : lists.entries = [] := by simpa [Value.truthy] using hempty
      rw [hnil] at hentry
      cases hentry
  obtain ⟨pairs, hpairs⟩ := exists_mapM_ok_iff.mpr fun entry hentry => by
    obtain ⟨xs, hxs⟩ := hentries entry hentry
    exact ⟨(entry.1, xs), show (match entry.2.tuple? with
      | some xs => Except.ok (entry.1, xs)
      | none => .error LoadFailure.typeError) = _ by rw [hxs]⟩
  exact ⟨_, bind_eq_ok.mpr ⟨pairs, hpairs, rfl⟩⟩

end

/-! ## Compiled versions -/

/-- `LoadedRuleSet`, of a version as the publisher stores it. -/
structure CompiledVersion where
  ruleset : RuleSet
  lists : Dict String (List Value)

/-- What `refresh` makes of a version. -/
def RuleSetVersion.compile (py : Python) (version : RuleSetVersion) :
    Except LoadFailure CompiledVersion := do
  let ruleset ← compileSnapshot py version.version version.rulesSnapshot
  let lists ← tupleLists version.listsSnapshot
  pure ⟨ruleset, lists⟩

/-- What a refresh leaves in the cache. A version that does not compile leaves what was there. -/
def refreshed (py : Python) (current : Option CompiledVersion) (published : Option RuleSetVersion)
    (force : Bool) : Option CompiledVersion :=
  match published with
  | none => current
  | some version =>
    if ¬ force ∧ current.map (·.ruleset.version) = some version.version then current
    else
      match version.compile py with
      | .ok loaded => some loaded
      | .error _ => current

def CompiledVersion.unchecked (loaded : CompiledVersion) : LoadedRuleSet :=
  ⟨loaded.ruleset.version, loaded.ruleset.rules.map CompiledRule.unchecked, loaded.lists⟩

section
variable {py : Python} {version : RuleSetVersion} {loaded : CompiledVersion}

theorem RuleSetVersion.compile_eq_ok_iff : version.compile py = .ok loaded ↔
    compileSnapshot py version.version version.rulesSnapshot = .ok loaded.ruleset ∧
      tupleLists version.listsSnapshot = .ok loaded.lists := by
  constructor
  · intro h
    obtain ⟨ruleset, hrules, h⟩ := bind_eq_ok.mp h
    obtain ⟨lists, hlists, h⟩ := bind_eq_ok.mp h
    cases pure_eq_ok.mp h
    exact ⟨hrules, hlists⟩
  · rintro ⟨hrules, hlists⟩
    exact bind_eq_ok.mpr ⟨_, hrules, bind_eq_ok.mpr ⟨_, hlists, rfl⟩⟩

theorem RuleSetVersion.compile_version (h : version.compile py = .ok loaded) :
    loaded.ruleset.version = version.version := by
  obtain ⟨compiled, -, hruleset⟩ := bind_eq_ok.mp (compile_eq_ok_iff.mp h).1
  rw [← pure_eq_ok.mp hruleset]
  rfl

/-- A version that does not compile does not compile as JSON. -/
theorem RuleSetVersion.compile_of_unchecked {unchecked : LoadedRuleSet}
    (h : RuleSetCache.compilePublished py version.version
      (.list (version.rulesSnapshot.map fun entry => .dict entry.fields))
      (.dict version.listsSnapshot.entries) = .ok unchecked) :
    ∃ loaded, version.compile py = .ok loaded := by
  obtain ⟨rules, hrules, h⟩ := bind_eq_ok.mp h
  obtain ⟨tuples, htuples, -⟩ := bind_eq_ok.mp h
  obtain ⟨entries, hentries, -⟩ := bind_eq_ok.mp hrules
  have hcompiled : ∀ entry ∈ version.rulesSnapshot, ∃ rule,
      compileEntry py version.version entry = .ok rule := by
    intro entry hentry
    obtain ⟨unchecked, hunchecked⟩ :=
      exists_mapM_ok_iff.mp ⟨entries, hentries⟩ _ (List.mem_map_of_mem hentry)
    exact compileEntry_of_unchecked hunchecked
  obtain ⟨compiled, hcompiled⟩ := exists_mapM_ok_iff.mpr hcompiled
  obtain ⟨lists, hlists⟩ := tupleLists_of_uncheckedLists htuples
  exact ⟨⟨.ofRules version.version compiled, lists⟩,
    compile_eq_ok_iff.mpr ⟨bind_eq_ok.mpr ⟨compiled, hcompiled, rfl⟩, hlists⟩⟩

end

/-- Of what the publisher stores, the cache holds the compiled version. -/
theorem refresh_publishedLoad (py : Python) (current : Option CompiledVersion) (db : ManagementDb)
    (tenantId : String) (force : Bool) :
    (RuleSetCache.refresh py ⟨current.map CompiledVersion.unchecked⟩ (db.publishedLoad tenantId)
      force).2 =
      ⟨(refreshed py current (db.loadPublished tenantId) force).map CompiledVersion.unchecked⟩ := by
  unfold ManagementDb.publishedLoad
  cases db.loadPublished tenantId with
  | none => rfl
  | some version =>
    have hversion : RuleSetCache.version ⟨current.map CompiledVersion.unchecked⟩ =
        current.map (·.ruleset.version) := by
      cases current <;> rfl
    dsimp only
    rw [RuleSetCache.refresh, refreshed, hversion]
    split
    · rfl
    · cases hcompile : version.compile py with
      | ok loaded =>
        obtain ⟨hrules, hlists⟩ := RuleSetVersion.compile_eq_ok_iff.mp hcompile
        rw [compile_load hrules hlists, ← RuleSetVersion.compile_version hcompile]
        rfl
      | error e =>
        cases hunchecked : RuleSetCache.compilePublished py version.version
            (.list (version.rulesSnapshot.map fun entry => .dict entry.fields))
            (.dict version.listsSnapshot.entries) with
        | error e => rfl
        | ok unchecked =>
          obtain ⟨loaded, hloaded⟩ := RuleSetVersion.compile_of_unchecked hunchecked
          rw [hcompile] at hloaded
          cases hloaded

end ComplyLayer
