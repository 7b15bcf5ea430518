import ComplyLayer.Api.Management
import Mathlib.Logic.Function.Basic

/-!
# The register an auditor keeps

What somebody who reads nothing but the trail knows of the rules and the keys. Rules and keys are
written down as their records come in; no record is about the order of rules or the wording of
refusals, so the register has no such field.
-/

namespace ComplyLayer

open Theory

structure RuleAccount where
  tenantId : String
  createdBy : String
  name : String
  expression : String
  severity : String
  state : State
  version : Int
  approvedBy : String
  deriving DecidableEq

structure KeyAccount where
  tenantId : String
  createdBy : String
  keyPrefix : String
  role : String
  environment : String
  revoked : Bool
  deriving DecidableEq

structure Register where
  rules : String → Option RuleAccount := fun _ => none
  keys : String → Option KeyAccount := fun _ => none

/-- A text of a payload. -/
def textIn (payload : List (String × Value)) (name : String) : String :=
  match Dict.find name payload with
  | some (.str text) => text
  | _ => ""

def intIn (payload : List (String × Value)) (name : String) : Int :=
  match Dict.find name payload with
  | some (.int n) => n
  | _ => 0

def itemsIn (payload : List (String × Value)) (name : String) : List Value :=
  match Dict.find name payload with
  | some (.list items) => items
  | _ => []

namespace RuleAccount

def setField (account : RuleAccount) (field after : String) : RuleAccount :=
  match field with
  | "name" => { account with name := after }
  | "expression" => { account with expression := after }
  | "severity" => { account with severity := after }
  | _ => account

/-- One of the changes of an edit. -/
def change (account : RuleAccount) : Value → RuleAccount
  | .dict entries => account.setField (textIn entries "field") (textIn entries "after")
  | _ => account

/-- An edit resets the approval. -/
def edit (account : RuleAccount) (payload : List (String × Value)) : RuleAccount :=
  { (itemsIn payload "changes").foldl change account with
    version := intIn payload "version"
    approvedBy := "" }

end RuleAccount

namespace Register

def enterRule (r : Register) (ruleId : String) (account : Option RuleAccount) : Register :=
  { r with rules := Function.update r.rules ruleId account }

def amendRule (r : Register) (ruleId : String) (f : RuleAccount → RuleAccount) : Register :=
  r.enterRule ruleId ((r.rules ruleId).map f)

def enterKey (r : Register) (keyId : String) (account : Option KeyAccount) : Register :=
  { r with keys := Function.update r.keys keyId account }

/-- Write a record down. -/
def note (r : Register) (event : AuditEvent) : Register :=
  match event.eventType with
  | "rule.created" =>
    r.enterRule event.subjectId (some
      { tenantId := event.tenantId
        createdBy := event.actor.id
        name := textIn event.payload "name"
        expression := textIn event.payload "expression"
        severity := textIn event.payload "severity"
        state := .draft
        version := 1
        approvedBy := "" })
  | "rule.edited" => r.amendRule event.subjectId (·.edit event.payload)
  | "rule.approved" => r.amendRule event.subjectId ({ · with approvedBy := event.actor.id })
  | "rule.shadowed" => r.amendRule event.subjectId ({ · with state := .shadow })
  | "rule.activated" | "rule.emergency_activated" =>
    r.amendRule event.subjectId ({ · with state := .active })
  | "rule.archived" => r.amendRule event.subjectId ({ · with state := .archived })
  | "apikey.issued" =>
    r.enterKey event.subjectId (some
      { tenantId := event.tenantId
        createdBy := event.actor.id
        keyPrefix := textIn event.payload "prefix"
        role := textIn event.payload "role"
        environment := textIn event.payload "environment"
        revoked := false })
  | "apikey.revoked" =>
    r.enterKey event.subjectId ((r.keys event.subjectId).map ({ · with revoked := true }))
  | _ => r

/-- The register of a trail. -/
def ofTrail (events : List AuditEvent) : Register := events.foldl note {}

end Register

/-! ## What the tables have of it -/

def Rule.account (rule : Rule) : RuleAccount where
  tenantId := rule.tenantId
  createdBy := rule.createdBy
  name := rule.content.name
  expression := rule.content.expression
  severity := rule.content.severity
  state := rule.state
  version := rule.version
  approvedBy := rule.approvedBy

def ApiKey.account (key : ApiKey) : KeyAccount where
  tenantId := key.tenantId
  createdBy := key.createdBy
  keyPrefix := key.keyPrefix
  role := key.role.str
  environment := key.environment
  revoked := key.revokedAt.isSome

def ManagementDb.register (db : ManagementDb) : Register where
  rules ruleId := (db.rules.find? ruleId).map Rule.account
  keys keyId := (db.keys.find? keyId).map ApiKey.account

/-! ## The changes of an edit -/

theorem foldl_change_text (field before after : String) (account : RuleAccount) :
    ((changesOf.text field before after).map RuleChange.entry).foldl RuleAccount.change account =
      if before = after then account else account.setField field after := by
  unfold changesOf.text
  split <;> rfl

/-- A field the register does not have. -/
theorem foldl_change_other (field : String) (hname : field ≠ "name")
    (hexpression : field ≠ "expression") (hseverity : field ≠ "severity") (before after : String)
    (account : RuleAccount) :
    ((changesOf.text field before after).map RuleChange.entry).foldl RuleAccount.change account =
      account := by
  have hset : account.setField field after = account := by
    unfold RuleAccount.setField
    split <;> simp_all
  rw [foldl_change_text, hset, ite_self]

theorem foldl_change_priority (before after : Int) (account : RuleAccount) :
    ((if before = after then []
      else [(⟨"priority", .int before, .int after⟩ : RuleChange)]).map RuleChange.entry).foldl
        RuleAccount.change account = account := by
  split <;> rfl

/-- The changes of an edit make the account of the edited rule. -/
theorem foldl_change (before after : RuleContent) (account : RuleAccount)
    (hname : account.name = before.name) (hexpression : account.expression = before.expression)
    (hseverity : account.severity = before.severity) :
    ((changesOf before after).map RuleChange.entry).foldl RuleAccount.change account =
      { account with
        name := after.name
        expression := after.expression
        severity := after.severity } := by
  simp only [changesOf, List.map_append, List.foldl_append, foldl_change_priority]
  rw [foldl_change_other "customer_message" (by decide) (by decide) (by decide),
    foldl_change_other "regulatory_reference" (by decide) (by decide) (by decide),
    foldl_change_other "category" (by decide) (by decide) (by decide),
    foldl_change_other "description" (by decide) (by decide) (by decide)]
  simp only [foldl_change_text]
  cases account
  simp only at hname hexpression hseverity
  subst hname hexpression hseverity
  by_cases hn : before.name = after.name <;> by_cases he : before.expression = after.expression <;>
    by_cases hs : before.severity = after.severity <;>
    simp [hn, he, hs, RuleAccount.setField]

theorem account_edit (rule : Rule) (patch : RulePatch) (reset : Value) :
    rule.account.edit
        [("version", .int (rule.edit patch).version),
          ("changes", .list ((changesOf rule.content (patch.apply rule.content)).map
            RuleChange.entry)),
          ("approval_reset", reset)] =
      (rule.edit patch).account := by
  have hchanges := foldl_change rule.content (patch.apply rule.content) rule.account rfl rfl rfl
  rw [RuleAccount.edit]
  have hitems : itemsIn
      [("version", .int (rule.edit patch).version),
        ("changes", .list ((changesOf rule.content (patch.apply rule.content)).map
          RuleChange.entry)),
        ("approval_reset", reset)] "changes" =
      (changesOf rule.content (patch.apply rule.content)).map RuleChange.entry := rfl
  rw [hitems, hchanges]
  rfl

end ComplyLayer
