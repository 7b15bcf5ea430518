import ComplyLayer.Tenancy.Scope
import ComplyLayer.Theory.Dict
import ComplyLayer.Theory.RowSecurity

/-!
# The policies of the tenant's tables

Migrations 0002, 0005, 0006, 0008, 0009 and 0011: the row security of the nine tables that carry a
tenant, the triggers of the trail, the application role, and the two functions that find a tenant.
Statements name these tables themselves. A partition of `complylayer_decision` is a table of its own
that 0005 gives no policy; a statement that names one is not here.
-/

namespace ComplyLayer

open Theory RowSecurity

/-- `TENANT_SCOPED_TABLES`. -/
inductive TenantTable where
  | rule | ruleSetVersion | decision | idempotency | auditRecord | namedList | apiKey
  | dashboardUser | auditCheckpoint
  deriving DecidableEq

/-- A row: the tenant, which no table leaves NULL, and the texts of its other columns that are not
NULL. -/
structure TenantRow where
  tenantId : String
  columns : Dict String String

def TenantRow.column (row : TenantRow) (name : String) : Option String :=
  if name = "tenant_id" then some row.tenantId else row.columns.get? name

/-- What `current_setting(…, true)` returns, `none` for NULL. -/
structure Settings where
  tenantId : Option String := none
  resolvingKey : Option String := none
  resolvingUser : Option String := none

/-! ## Policies -/

/-- A `…_tenant_isolation` policy: `FOR ALL`, and the same for reading and for writing. -/
def tenantIsolation : Policy Settings TenantRow where
  verbs := [.select, .insert, .update, .delete]
  shows settings row := settings.tenantId = some row.tenantId
  admits settings row := settings.tenantId = some row.tenantId

/-- A `…_resolution` policy: `FOR SELECT`, while a flag is on. -/
def resolution (flag : Settings → Option String) : Policy Settings TenantRow where
  verbs := [.select]
  shows settings _ := flag settings = some "on"
  admits settings _ := flag settings = some "on"

def policies : TenantTable → List (Policy Settings TenantRow)
  | .apiKey => [tenantIsolation, resolution Settings.resolvingKey]
  | .dashboardUser => [tenantIsolation, resolution Settings.resolvingUser]
  | _ => [tenantIsolation]

/-! ## Keys and triggers -/

/-- The primary key and the unique constraints, by their columns. -/
def uniqueColumns : TenantTable → List (List String)
  | .rule => [["id"], ["tenant_id", "name", "version"]]
  | .ruleSetVersion => [["id"], ["tenant_id", "version"]]
  | .decision => [["id", "decided_at"]]
  | .idempotency => [["id"], ["tenant_id", "key"]]
  | .auditRecord => [["id"]]
  | .namedList => [["id"], ["tenant_id", "name"]]
  | .apiKey => [["id"], ["prefix"]]
  | .dashboardUser => [["id"], ["user_id"]]
  | .auditCheckpoint => [["id"]]

structure Trigger where
  name : String
  table : TenantTable
  verbs : List Verb

/-- The triggers of migrations 0002 and 0011. -/
def migratedTriggers : List Trigger :=
  [⟨"complylayer_audit_append_only", .auditRecord, [.update, .delete]⟩,
    ⟨"complylayer_audit_no_truncate", .auditRecord, [.truncate]⟩,
    ⟨"complylayer_checkpoint_append_only", .auditCheckpoint, [.update, .delete]⟩,
    ⟨"complylayer_checkpoint_no_truncate", .auditCheckpoint, [.truncate]⟩]

/-- The tables with the triggers that are there. -/
def tenantSchema (triggers : List Trigger) :
    Schema TenantTable Settings TenantRow (List (Option String)) where
  policies := policies
  keys table := (uniqueColumns table).map fun names row => names.map row.column
  refuses table verb := triggers.any fun t => decide (t.table = table ∧ verb ∈ t.verbs)

/-! ## Roles -/

/-- `complylayer_app`, on these tables: on the trail it may insert and read. 0006 grants it the
four verbs on every table of the schema, the partitions with them, and the sequences. -/
def complylayerApp : RowSecurity.Role TenantTable where
  bypasses := false
  granted table verb :=
    match verb with
    | .select | .insert => true
    | .update | .delete => decide (table ≠ .auditRecord ∧ table ≠ .auditCheckpoint)
    | .truncate => false

/-! ## Finding the tenant -/

/-- A row of `complylayer_resolve_api_key`: the tenant, and `id`, `hashed_secret`, `environment`,
`role` and `revoked_at`. -/
structure ResolvedKey where
  tenantId : String
  columns : List (Option String)

def TenantRow.resolvedKey (row : TenantRow) : ResolvedKey where
  tenantId := row.tenantId
  columns := ["id", "hashed_secret", "environment", "role", "revoked_at"].map row.column

section
variable (triggers : List Trigger) (role : RowSecurity.Role TenantTable)
  (db : RowSecurity.Database TenantTable TenantRow)

/-- `complylayer_resolve_api_key`, of which `_resolve` fetches one row. The flag is on for the
length of the call. The role is one that may execute it: 0008 takes that from `PUBLIC` and gives
it to `complylayer_app`. -/
def resolveApiKey (settings : Settings) (candidatePrefix : String) : Option ResolvedKey :=
  let rows := (tenantSchema triggers).seen
    ⟨role, { settings with resolvingKey := some "on" }⟩ db .apiKey
  (rows.find? fun row => row.column "prefix" = some candidatePrefix).map
    TenantRow.resolvedKey

/-- A row of `complylayer_resolve_dashboard_user`: the tenant and the `id`. The role is one that may
execute it, as 0009 grants. -/
def resolveDashboardUser (settings : Settings) (candidateUserId : Int) :
    Option (Option String × String) :=
  let rows := (tenantSchema triggers).seen
    ⟨role, { settings with resolvingUser := some "on" }⟩ db .dashboardUser
  (rows.find? fun row => row.column "user_id" = some (toString candidateUserId)).map
    fun row => (row.column "id", row.tenantId)

end

/-! ## Requests -/

section
variable (triggers : List Trigger) (role : RowSecurity.Role TenantTable)

/-- The session in a `tenant_scope`. -/
def tenantSession (tenantId : String) : Session TenantTable Settings :=
  ⟨role, { tenantId := some tenantId }⟩

end

/-! ## Scopes -/

/-- A connection with its scopes, and the tables as they were when each open block began. -/
structure ScopedConnection where
  scoping : Scoping := {}
  db : RowSecurity.Database TenantTable TenantRow
  saved : List (RowSecurity.Database TenantTable TenantRow) := []

inductive ScopedEvent (Answer : Type) where
  | block (event : ScopeEvent)
  | execute (statement : RowSecurity.Statement TenantTable TenantRow Answer)

namespace ScopedConnection

def session (w : ScopedConnection) (role : RowSecurity.Role TenantTable) :
    Session TenantTable Settings :=
  ⟨role, { tenantId := w.scoping.connection.setting }⟩

/-- The tables after a block is entered or left, by an exception as they were before it. -/
def afterBlock (w : ScopedConnection) (scoping : Scoping) : ScopeEvent → ScopedConnection
  | .scope _ | .atomic => { scoping, db := w.db, saved := w.db :: w.saved }
  | .leave raised =>
    { scoping, db := if raised then w.saved.headD w.db else w.db, saved := w.saved.tail }

def step (triggers : List Trigger) (role : RowSecurity.Role TenantTable) (w : ScopedConnection) :
    ScopedEvent Answer → Option ScopedConnection
  | .block event => (scopeStep w.scoping event).map fun scoping => w.afterBlock scoping event
  | .execute statement =>
    some { w with db := ((tenantSchema triggers).exec (w.session role) w.db statement).1 }

end ScopedConnection

end ComplyLayer
