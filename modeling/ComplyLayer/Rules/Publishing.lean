import ComplyLayer.Api.Publication

/-!
# Publications as transactions

`activate` and `archive` of one tenant, a statement at a time, at READ COMMITTED: a statement sees
what is committed when it runs, and what its own transaction wrote. The row a transaction updated
and the version it inserted are locked to the others until it ends, and a statement that needs a
lock waits for it.
-/

namespace ComplyLayer

open Theory

inductive PublishOp where
  | activate (now : Int)
  | archive

/-- What a publication is about: the rule, and who publishes. -/
structure Publisher where
  ruleId : String
  actorId : String
  op : PublishOp

/-- The row its update leaves. -/
def Publisher.update (publisher : Publisher) (row : Rule) : Rule :=
  match publisher.op with
  | .activate now => { row with state := .active, activatedAt := some now }
  | .archive => { row with state := .archived }

/-- How far a publication is, with the row it has updated. -/
inductive Stage where
  | idle
  | updated (row : Rule)
  | numbered (row : Rule) (next : Nat)
  | read (row : Rule) (next : Nat) (snapshot : List RuleSnapshot)
  | inserted (row : Rule) (version : RuleSetVersion)
  | committed (version : RuleSetVersion)
  | aborted

/-- What is committed, how far each publication is, and which holds a rule's row or has inserted
the version of a number. -/
structure Publishing (ι : Type) where
  db : ManagementDb
  stage : ι → Stage := fun _ => .idle
  rowLock : String → Option ι := fun _ => none
  inserter : Nat → Option ι := fun _ => none

inductive PublishStep (ι : Type) where
  | update (i : ι)
  | readNumber (i : ι)
  | readRules (i : ι)
  | insert (i : ι)
  | commit (i : ι)
  | abort (i : ι)

/-- The entries of a version, as a transaction that has updated a row reads them. -/
def ManagementDb.snapshotsWith (db : ManagementDb) (tenantId : String) (row : Rule) :
    List RuleSnapshot :=
  { db with rules := db.rules.put row }.publishedSnapshots tenantId

namespace Publishing

variable {ι : Type} [DecidableEq ι]

def advance (s : Publishing ι) (i : ι) (stage : Stage) : Publishing ι :=
  { s with stage := Function.update s.stage i stage }

/-- The transaction ends, and lets go of its locks. -/
def finish (s : Publishing ι) (i : ι) (stage : Stage) : Publishing ι :=
  { s.advance i stage with
    rowLock := fun id => (s.rowLock id).filter (· ≠ i)
    inserter := fun number => (s.inserter number).filter (· ≠ i) }

/-- One statement, `none` where it waits or is not the transaction's next. A transaction may fail
at any statement before it is committed, as at the ones that find no row or a number taken. -/
def step (tenantId : String) (publishers : ι → Publisher) (s : Publishing ι) :
    PublishStep ι → Option (Publishing ι)
  | .update i =>
    let id := (publishers i).ruleId
    match s.stage i, s.rowLock id with
    | .idle, none =>
      match s.db.rule? tenantId id with
      | some row =>
        some { s.advance i (.updated ((publishers i).update row)) with
          rowLock := Function.update s.rowLock id (some i) }
      | none => some (s.finish i .aborted)
    | _, _ => none
  | .readNumber i =>
    match s.stage i with
    | .updated row => some (s.advance i (.numbered row (s.db.latestVersion tenantId + 1)))
    | _ => none
  | .readRules i =>
    match s.stage i with
    | .numbered row next =>
      some (s.advance i (.read row next (s.db.snapshotsWith tenantId row)))
    | _ => none
  | .insert i =>
    match s.stage i with
    | .read row next snapshot =>
      let version : RuleSetVersion :=
        ⟨tenantId, next, snapshot, s.db.namedLists tenantId, (publishers i).actorId⟩
      match s.db.versions.find? version.perTenant, s.inserter next with
      | some _, _ => some (s.finish i .aborted)
      | none, some _ => none
      | none, none =>
        some { s.advance i (.inserted row version) with
          inserter := Function.update s.inserter next (some i) }
    | _ => none
  | .commit i =>
    match s.stage i with
    | .inserted row version =>
      match s.db.versions.insert? version with
      | some versions =>
        some { s.finish i (.committed version) with
          db := { s.db with rules := s.db.rules.put row, versions := versions } }
      | none => none
    | _ => none
  | .abort i =>
    match s.stage i with
    | .committed _ => none
    | _ => some (s.finish i .aborted)

/-- What a step can do. -/
inductive Effect (tenantId : String) (s : Publishing ι) :
    Publishing ι → Prop
  | updated (i : ι) (row : Rule) (locks : String → Option ι) (idle : s.stage i = .idle) :
      Effect tenantId s { s.advance i (.updated row) with rowLock := locks }
  | numbered (i : ι) (row : Rule) (updated : s.stage i = .updated row) :
      Effect tenantId s
        (s.advance i (.numbered row (s.db.latestVersion tenantId + 1)))
  | read (i : ι) (row : Rule) (next : Nat) (numbered : s.stage i = .numbered row next) :
      Effect tenantId s
        (s.advance i (.read row next (s.db.snapshotsWith tenantId row)))
  | inserted (i : ι) (row : Rule) (version : RuleSetVersion)
      (read : s.stage i = .read row version.version version.rulesSnapshot)
      (tenant : version.tenantId = tenantId)
      (free : s.db.versions.find? version.perTenant = none)
      (first : s.inserter version.version = none) :
      Effect tenantId s
        { s.advance i (.inserted row version) with
          inserter := Function.update s.inserter version.version (some i) }
  | committed (i : ι) (row : Rule) (version : RuleSetVersion)
      (versions : Table RuleSetVersion.perTenant) (inserted : s.stage i = .inserted row version)
      (insert : s.db.versions.insert? version = some versions) :
      Effect tenantId s
        { s.finish i (.committed version) with
          db := { s.db with rules := s.db.rules.put row, versions := versions } }
  | aborted (i : ι) (open_ : ∀ version, s.stage i ≠ .committed version) :
      Effect tenantId s (s.finish i .aborted)

theorem effect_of_step {tenantId : String} {publishers : ι → Publisher} {s t : Publishing ι}
    {a : PublishStep ι} (h : step tenantId publishers s a = some t) :
    Effect tenantId s t := by
  cases a with
  | update i =>
    rw [step] at h
    split at h
    · rename_i hidle _
      split at h
      · cases h
        exact .updated i _ _ hidle
      · cases h
        exact .aborted i fun version hstage => by rw [hidle] at hstage; cases hstage
    · cases h
  | readNumber i =>
    rw [step] at h
    split at h
    · cases h
      exact .numbered i _ ‹_›
    · cases h
  | readRules i =>
    rw [step] at h
    split at h
    · cases h
      exact .read i _ _ ‹_›
    · cases h
  | insert i =>
    rw [step] at h
    split at h
    · rename_i row next snapshot hread
      dsimp only at h
      split at h
      · cases h
        exact .aborted i fun version hstage => by rw [hread] at hstage; cases hstage
      · cases h
      · rename_i hfree hfirst
        cases h
        exact .inserted i row
          ⟨tenantId, next, snapshot, s.db.namedLists tenantId, (publishers i).actorId⟩ hread rfl
          hfree hfirst
    · cases h
  | commit i =>
    rw [step] at h
    split at h
    · rename_i hinserted
      split at h
      · rename_i versions hinsert
        cases h
        exact .committed i _ _ versions hinserted hinsert
      · cases h
    · cases h
  | abort i =>
    rw [step] at h
    split at h
    · cases h
    · rename_i hopen
      cases h
      exact .aborted i hopen

end Publishing

end ComplyLayer
