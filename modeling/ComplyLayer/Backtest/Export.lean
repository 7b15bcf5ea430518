import ComplyLayer.Audit.Chain
import ComplyLayer.Rules.Lifecycle
import ComplyLayer.Theory.Csv

/-!
# The export

`backtest/export.py`: the rules of a tenant and the changes to them as comma separated values, which
a spreadsheet is not to take for formulas.
-/

namespace ComplyLayer

open Theory

/-- `str` of the values that are not strings. -/
structure ExportRuntime where
  str : Value → String
  strTime : Int → String

def formulaPrefixes : List Char := ['=', '+', '-', '@', '\t', '\r']

/-- `text.startswith(FORMULA_PREFIXES)`. -/
def StartsFormula (text : String) : Prop := text.toList.head?.any fun c => c ∈ formulaPrefixes

instance : DecidablePred StartsFormula := fun _ => inferInstanceAs (Decidable (_ = true))

/-- `_safe(value)`: a value is what `str` makes of it, or is `None`. -/
def safe (value : Option String) : String :=
  let text := value.getD ""
  if StartsFormula text then "'" ++ text else text

/-- Rows of text, as `csv.writer` writes them. -/
def csvText (rows : List (List String)) : String :=
  String.ofList (Csv.write (rows.map (·.map String.toList)))

def rulesHeader : List String :=
  ["rule_id", "name", "state", "severity", "expression", "regulatory_reference", "created_by",
    "approved_by", "activated_at"]

/-- The columns of `rules_csv`. -/
def ruleValues (rt : ExportRuntime) (rule : Rule) : List (Option String) :=
  [some rule.id,
    some rule.content.name,
    some rule.state.str,
    some rule.content.severity,
    some rule.content.expression,
    some rule.content.regulatoryReference,
    some rule.createdBy,
    some rule.approvedBy,
    rule.activatedAt.map rt.strTime]

def rulesCsv (rt : ExportRuntime) (rules : List Rule) : String :=
  csvText (rulesHeader :: rules.map fun rule => (ruleValues rt rule).map safe)

/-- `str` of what a dictionary has, where that is not `None`. -/
def ExportRuntime.text (rt : ExportRuntime) : Option Value → Option String
  | none | some .none => none
  | some (.str s) => some s
  | some value => some (rt.str value)

def historyHeader : List String := ["recorded_at", "event", "actor", "role", "subject", "hash"]

/-- The columns of `history_csv`. -/
def recordValues (rt : ExportRuntime) (record : AuditRecord) : List (Option String) :=
  [some (rt.strTime record.recordedAt),
    some record.eventType,
    rt.text (record.actor.get? "id"),
    rt.text (record.actor.get? "role"),
    rt.text (record.subject.get? "id"),
    some record.hash]

def historyCsv (rt : ExportRuntime) (records : List AuditRecord) : String :=
  csvText (historyHeader :: records.map fun record => (recordValues rt record).map safe)

end ComplyLayer
