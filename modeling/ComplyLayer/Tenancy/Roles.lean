/-!
# Who may do what to a compliance rule

`tenancy/roles.py`: the roles, the actions, the permission matrix and the checks on it.
-/

namespace ComplyLayer

inductive Role where
  | complianceAnalyst | complianceOfficer | riskManager | engineer | auditor
  deriving DecidableEq, Repr

inductive Action where
  | createDraft | editDraft | backtest | shadow | requestApproval | approve | activate | archive
  | revert | emergencyOverride | reviewDecision | manageKeys
  deriving DecidableEq, Repr

def Role.str : Role → String
  | complianceAnalyst => "compliance_analyst"
  | complianceOfficer => "compliance_officer"
  | riskManager => "risk_manager"
  | engineer => "engineer"
  | auditor => "auditor"

def Action.str : Action → String
  | createDraft => "create_draft"
  | editDraft => "edit_draft"
  | backtest => "backtest"
  | shadow => "shadow"
  | requestApproval => "request_approval"
  | approve => "approve"
  | activate => "activate"
  | archive => "archive"
  | revert => "revert"
  | emergencyOverride => "emergency_override"
  | reviewDecision => "review_decision"
  | manageKeys => "manage_keys"

/-- `PERMISSIONS`. -/
def permissions : Role → List Action
  | .complianceAnalyst => [.backtest, .createDraft, .editDraft, .shadow, .requestApproval]
  | .complianceOfficer =>
    [.backtest, .createDraft, .editDraft, .shadow, .requestApproval, .approve, .activate, .archive,
      .revert, .reviewDecision, .manageKeys]
  | .riskManager =>
    [.backtest, .createDraft, .editDraft, .shadow, .requestApproval, .approve, .activate, .archive,
      .revert, .emergencyOverride, .reviewDecision, .manageKeys]
  | .engineer => [.backtest, .manageKeys]
  | .auditor => [.backtest]

structure Actor where
  id : String
  role : Role
  ip : String := ""
  deriving DecidableEq, Repr

/-- Refused on role, or refused because the actor is the author. -/
structure PermissionDenied where
  message : String
  actor : Actor
  action : Action
  deriving DecidableEq, Repr

def article (word : String) : String :=
  if word.toList.head?.any fun c => c.toLower ∈ "aeiou".toList then "an" else "a"

/-- `text.replace("_", " ")`. -/
def words (text : String) : String :=
  String.ofList (text.toList.map fun c => if c = '_' then ' ' else c)

def Role.describe (role : Role) : String := article (words role.str) ++ " " ++ words role.str

def may (role : Role) (action : Action) : Bool := action ∈ permissions role

def require (actor : Actor) (action : Action) : Except PermissionDenied Unit :=
  if may actor.role action then .ok ()
  else .error ⟨actor.role.describe ++ " cannot " ++ words action.str, actor, action⟩

/-- A key may only be issued with permissions its issuer already holds. -/
def mayIssue (actorRole targetRole : Role) : Bool :=
  (permissions targetRole).all fun action => action ∈ permissions actorRole

def requireIssuable (actor : Actor) (targetRole : Role) : Except PermissionDenied Unit :=
  if mayIssue actor.role targetRole then .ok ()
  else .error
    ⟨actor.role.describe ++ " cannot issue a key that acts as " ++ targetRole.describe ++
      "; a key cannot carry permissions its issuer does not have", actor, .manageKeys⟩

/-- Separation of duties, against one author. -/
def requireNotAuthor (actor : Actor) (authorId : String) (action : Action) :
    Except PermissionDenied Unit :=
  if actor.id = authorId then .error
    ⟨"you cannot approve your own change; approval exists so that no single person can weaken a " ++
      "control on their own", actor, action⟩
  else .ok ()

theorem require_eq_ok_iff {actor : Actor} {action : Action} :
    require actor action = .ok () ↔ may actor.role action := by
  unfold require
  split <;> simp_all

theorem requireNotAuthor_eq_ok_iff {actor : Actor} :
    requireNotAuthor actor authorId action = .ok () ↔ actor.id ≠ authorId := by
  unfold requireNotAuthor
  split <;> simp_all

/-- The role holds one of the permissions that put a rule in force or take it out. -/
def Role.Controls (role : Role) : Prop :=
  may role .archive ∨ may role .activate ∨ may role .revert

instance (role : Role) : Decidable role.Controls := inferInstanceAs (Decidable (_ ∨ _ ∨ _))

/-- The three permissions go together. -/
theorem Role.controls_iff (role : Role) (action : Action)
    (h : action = .archive ∨ action = .activate ∨ action = .revert) :
    may role action ↔ role.Controls := by
  rcases h with rfl | rfl | rfl <;> cases role <;> decide

end ComplyLayer
