import ComplyLayer.Api.Handler
import ComplyLayer.Rules.Lifecycle

/-!
# The published rule set

`engine/cache.py`, and the reads of `api/decision_middleware.py` and `api/store.py` that serve a
decision from what the management operations published.
-/

namespace ComplyLayer

open Theory

/-- `Severity(value)`, `none` where it raises `ValueError`. -/
def Severity.ofStr? (value : String) : Option Severity :=
  [Severity.block, .flag, .allowWithNote].find? fun severity => severity.str = value

theorem Severity.ofStr?_eq_some_iff {severity : Severity} :
    Severity.ofStr? text = some severity ↔ severity.str = text := by
  constructor
  · intro h
    simpa using List.find?_some h
  · rintro rfl
    cases severity <;> rfl

/-- `tuple(value)`, `none` where it raises `TypeError`. -/
def Value.tuple? : Value → Option (List Value)
  | .list xs | .tuple xs => some xs
  | .str s => some (s.toList.map fun c => .str (String.ofList [c]))
  | .dict entries => some (entries.map fun (key, _) => .str key)
  | .bytes b => some (b.map fun x => .int x.toNat)
  | _ => Option.none

/-- What keeps a published version from being loaded. -/
inductive LoadFailure where
  | snapshotError (ruleId : String) (version : Nat) (e : RuleSyntaxError)
  | memoryError
  | valueError
  | typeError

/-- One entry of `compile_snapshot`: the expression goes back through `validate_source`. -/
def compileEntry (py : Python) (version : Nat) (entry : RuleSnapshot) :
    Except LoadFailure CompiledRule :=
  match validateSource py entry.expression, Severity.ofStr? entry.severity with
  | .error (.refused e), _ => .error (.snapshotError entry.id version e)
  | .error .memoryError, _ => .error .memoryError
  | .ok _, none => .error .valueError
  | .ok tree, some severity =>
    .ok
      { id := entry.id
        name := entry.name
        tree := tree
        severity := severity
        state := entry.state
        priority := entry.priority
        regulatoryReference := entry.regulatoryReference
        customerMessage := entry.customerMessage }

def compileSnapshot (py : Python) (version : Nat) (rules : List RuleSnapshot) :
    Except LoadFailure RuleSet := do
  let compiled ← rules.mapM (compileEntry py version)
  pure (.ofRules version compiled)

/-- `{name: tuple(values) for name, values in lists_snapshot.items()}`. -/
def tupleLists (lists : Dict String Value) : Except LoadFailure (Dict String (List Value)) := do
  let tuples ← lists.entries.mapM fun (name, values) =>
    match values.tuple? with
    | some xs => .ok (name, xs)
    | none => .error .typeError
  pure (.ofList tuples)

namespace ManagementDb

/-- `_load_published`: the tenant's newest version. -/
def loadPublished (db : ManagementDb) (tenantId : String) : Option RuleSetVersion :=
  db.versions.find? (tenantId, db.latestVersion tenantId)

/-- What a worker that has refreshed its cache answers a decision request with, `none` where it has
no rule set to answer with. The named lists are those of the version. -/
def serve (py : Python) (db : ManagementDb) (tenantId salt : String)
    (fallbackPolicy : Dict Severity String) (transaction : Transaction) (velocity : Gathered)
    (now : Instant) (decisionId : String) : Option (Except Raised (Dict String Value)) :=
  match db.loadPublished tenantId with
  | none => none
  | some version =>
    match compileSnapshot py version.version version.rulesSnapshot,
        tupleLists version.listsSnapshot with
    | .ok ruleset, .ok lists =>
      some (DecisionHandler.decide py ⟨tenantId, ruleset, salt⟩ ⟨fallbackPolicy, lists⟩ transaction
        velocity now decisionId)
    | _, _ => none

end ManagementDb

end ComplyLayer
