/-!
# The tenant of a transaction

`tenancy/scope.py`: the setting that row level security reads, the blocks it is set in, and
`tenant_scope`, split where it yields.
-/

namespace ComplyLayer

/-- A connection, as far as the tenant goes: what `current_setting` returns, `none` for NULL, and
what it was when each open block began. The innermost is first, the transaction last. -/
structure Connection where
  setting : Option String := none
  savepoints : List (Option String) := []
  deriving DecidableEq

namespace Connection

variable (c : Connection)

def currentTenant : Option String := c.setting.filter fun value => value ≠ ""

/-- `_set`. A local setting lasts to the end of the transaction: outside one, not at all. -/
def set (tenantId : String) : Connection :=
  if c.savepoints.isEmpty then c else { c with setting := some tenantId }

/-- Where an `atomic()` begins: a transaction, or a savepoint of the one there is. -/
def enterAtomic : Connection := { c with savepoints := c.setting :: c.savepoints }

/-- A setting that is taken back. The database leaves it empty where it was NULL. -/
def restored (before : Option String) : Option String := some (before.getD "")

/-- Where an `atomic()` ends: the transaction is over, or its savepoint is released or, after an
exception, rolled back to. -/
def exitAtomic (raised : Bool) : Connection :=
  match c.savepoints with
  | [] => c
  | [before] => { setting := restored before, savepoints := [] }
  | before :: outer =>
    { setting := if raised then restored before else c.setting, savepoints := outer }

end Connection

/-- A block that was entered and not left, with what it has to remember. -/
inductive Block where
  | atomic
  | scope (tenantId : String) (previous : Option String)
  deriving DecidableEq

/-- A connection and the blocks that are open on it, the innermost first. -/
structure Scoping where
  connection : Connection := {}
  blocks : List Block := []
  deriving DecidableEq

namespace Scoping

variable (s : Scoping)

/-- `tenant_scope`, up to the block it runs. -/
def enterScope (tenantId : String) : Scoping where
  connection := s.connection.enterAtomic.set tenantId
  blocks := .scope tenantId s.connection.currentTenant :: s.blocks

/-- `with transaction.atomic()` around a block of another caller. -/
def enterAtomic : Scoping where
  connection := s.connection.enterAtomic
  blocks := .atomic :: s.blocks

/-- The end of the innermost block, normally or by an exception. `tenant_scope` writes the tenant of
before in both. -/
def leave (raised : Bool) : Option Scoping :=
  match s.blocks with
  | [] => none
  | .atomic :: blocks => some { connection := s.connection.exitAtomic raised, blocks }
  | .scope _ previous :: blocks =>
    some { connection := (s.connection.set (previous.getD "")).exitAtomic raised, blocks }

/-- The tenant of the innermost open scope. -/
def innermost : Option String :=
  s.blocks.findSome? fun
    | .scope tenantId _ => some tenantId
    | .atomic => none

end Scoping

inductive ScopeEvent where
  | scope (tenantId : String)
  | atomic
  | leave (raised : Bool)
  deriving DecidableEq

def scopeStep (s : Scoping) : ScopeEvent → Option Scoping
  | .scope tenantId => some (s.enterScope tenantId)
  | .atomic => some s.enterAtomic
  | .leave raised => s.leave raised

end ComplyLayer
