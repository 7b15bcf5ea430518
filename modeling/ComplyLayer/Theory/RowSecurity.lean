import Mathlib.Data.List.Basic
import Mathlib.Logic.Function.Basic

/-!
# Row security

Tables with row security, as PostgreSQL runs statements on them: permissive policies, privileges,
unique keys, and triggers that refuse a verb. A statement is given what its session sees of every
table, so that joins and subqueries are functions of that. `own` is a set of rows, the part of the
database a session is to be confined to: it then runs as on a database of its own
(`Schema.exec_part`), and leaves the rest as it is (`Schema.exec_rest`).
-/

namespace ComplyLayer.Theory.RowSecurity

inductive Verb where
  | select | insert | update | delete | truncate
  deriving DecidableEq

/-- A permissive policy: `shows` is its `USING` and `admits` its `WITH CHECK`. -/
structure Policy (Setting Row : Type) where
  verbs : List Verb
  shows : Setting → Row → Bool
  admits : Setting → Row → Bool

structure Schema (Table Setting Row Key : Type) where
  policies : Table → List (Policy Setting Row)
  keys : Table → List (Row → Key)
  /-- A trigger raises, for each row, or for the statement where the verb is `truncate`. -/
  refuses : Table → Verb → Bool

/-- Reading is granted on every table. -/
structure Role (Table : Type) where
  bypasses : Bool
  granted : Table → Verb → Bool

structure Session (Table Setting : Type) where
  role : Role Table
  setting : Setting

abbrev Database (Table Row : Type) := Table → List Row

inductive Statement (Table Row Answer : Type) where
  | query (answer : Database Table Row → Answer)
  | insert (table : Table) (rows : Database Table Row → List Row)
  | update (table : Table) (condition : Database Table Row → Row → Bool)
    (change : Database Table Row → Row → Row)
  | delete (table : Table) (condition : Database Table Row → Row → Bool)
  | truncate (table : Table)

inductive Failure where
  | privilege | policy | trigger | duplicate
  deriving DecidableEq

inductive Reply (Answer : Type) where
  | answer (a : Answer)
  | count (n : Nat)
  | refused (failure : Failure)

variable {Table Setting Row Key Answer : Type}

section
variable (S : Schema Table Setting Row Key) (s : Session Table Setting)

namespace Schema

def shows (verb : Verb) (table : Table) (row : Row) : Bool :=
  s.role.bypasses ||
    (S.policies table).any fun policy => decide (verb ∈ policy.verbs) && policy.shows s.setting row

def admits (verb : Verb) (table : Table) (row : Row) : Bool :=
  s.role.bypasses ||
    (S.policies table).any fun policy => decide (verb ∈ policy.verbs) && policy.admits s.setting row

/-- What the session sees. -/
def seen (db : Database Table Row) : Database Table Row :=
  fun table => (db table).filter (S.shows s .select table)

/-- A condition on the rows reads them, so the policies for reading hold too. -/
def targets (verb : Verb) (table : Table) (condition : Row → Bool) (row : Row) : Bool :=
  S.shows s verb table row && S.shows s .select table row && condition row

/-- A row has a key of one of the others. -/
def clashes [DecidableEq Key] (table : Table) (others : List Row) (row : Row) : Bool :=
  (S.keys table).any fun key => others.any fun other => decide (key other = key row)

/-- The rows of a table after more of them are inserted, one after the other. -/
def insertRows [DecidableEq Key] (table : Table) : List Row → List Row → Except Failure (List Row)
  | rows, [] => .ok rows
  | rows, row :: more =>
    if !S.admits s .insert table row then .error .policy
    else if S.clashes table rows row then .error .duplicate
    else insertRows table (rows ++ [row]) more

/-- The rows of a table after those that are targeted are changed, one after the other. -/
def updateRows [DecidableEq Key] (table : Table) (condition : Row → Bool) (change : Row → Row) :
    List Row → List Row → Except Failure (List Row)
  | done, [] => .ok done
  | done, row :: more =>
    if !S.targets s .update table condition row then
      updateRows table condition change (done ++ [row]) more
    else if S.refuses table .update then .error .trigger
    else if !(S.admits s .update table (change row) && S.shows s .select table (change row)) then
      .error .policy
    else if S.clashes table (done ++ more) (change row) then .error .duplicate
    else updateRows table condition change (done ++ [change row]) more

def deleteRows (table : Table) (condition : Row → Bool) (rows : List Row) :
    Except Failure (List Row) :=
  if S.refuses table .delete && rows.any (S.targets s .delete table condition) then .error .trigger
  else .ok (rows.filter fun row => !S.targets s .delete table condition row)

/-- Row security is no matter of `TRUNCATE`. -/
def truncateRows (table : Table) : Except Failure (List Row) :=
  if S.refuses table .truncate then .error .trigger else .ok []

end Schema

/-- A statement that writes fails without any effect, or leaves these rows in the table. -/
def Session.write [DecidableEq Table] (db : Database Table Row) (table : Table) (verb : Verb)
    (rows : Except Failure (List Row)) (count : Nat) : Database Table Row × Reply Answer :=
  if !s.role.granted table verb then (db, .refused .privilege)
  else
    match rows with
    | .ok rows => (Function.update db table rows, .count count)
    | .error failure => (db, .refused failure)

def Schema.exec [DecidableEq Table] [DecidableEq Key] (db : Database Table Row) :
    Statement Table Row Answer → Database Table Row × Reply Answer
  | .query answer => (db, .answer (answer (S.seen s db)))
  | .insert table rows =>
    let inserted := rows (S.seen s db)
    s.write db table .insert (S.insertRows s table (db table) inserted) inserted.length
  | .update table condition change =>
    let condition := condition (S.seen s db)
    s.write db table .update
      (S.updateRows s table condition (change (S.seen s db)) [] (db table))
      ((db table).countP (S.targets s .update table condition))
  | .delete table condition =>
    let condition := condition (S.seen s db)
    s.write db table .delete (S.deleteRows s table condition (db table))
      ((db table).countP (S.targets s .delete table condition))
  | .truncate table => s.write db table .truncate (S.truncateRows table) 0

end

/-! ## A part of the database -/

def part (own : Row → Bool) (db : Database Table Row) : Database Table Row :=
  fun table => (db table).filter own

theorem part_update [DecidableEq Table] (own : Row → Bool) (db : Database Table Row)
    (table : Table) (rows : List Row) : part own (Function.update db table rows) =
      Function.update (part own db) table (rows.filter own) := by
  funext other
  by_cases hother : other = table
  · subst hother
    rw [part, Function.update_self, Function.update_self]
  · rw [part, Function.update_of_ne hother, Function.update_of_ne hother]
    rfl

/-- A part of what stays as it is stays as it is. -/
theorem part_eq_of_rest {own other : Row → Bool} {db db' : Database Table Row}
    (hdisjoint : ∀ row, own row = true → other row = false)
    (h : part (fun row => !other row) db' = part (fun row => !other row) db) :
    part own db' = part own db := by
  have hown : ∀ db : Database Table Row,
      part own (part (fun row => !other row) db) = part own db := by
    intro db
    funext table
    refine List.filter_filter.trans (List.filter_congr fun row _ => ?_)
    cases hrow : own row with
    | false => rfl
    | true => rw [hdisjoint row hrow]; rfl
  rw [← hown db', h, hown]

/-- The session reads and writes rows of the part only. -/
structure Schema.Confines (S : Schema Table Setting Row Key) (s : Session Table Setting)
    (own : Row → Bool) : Prop where
  shows : ∀ verb table row, S.shows s verb table row = true → own row = true
  admits : ∀ verb table row, S.admits s verb table row = true → own row = true
  truncate : ∀ table, s.role.granted table .truncate = false

section
variable {S : Schema Table Setting Row Key} {s : Session Table Setting} {own : Row → Bool}
  {db : Database Table Row} {table : Table} {condition : Row → Bool} {change : Row → Row}

theorem Schema.Confines.own_of_targets (h : S.Confines s own) {verb : Verb}
    (htargets : S.targets s verb table condition row = true) : own row = true := by
  rw [Schema.targets, Bool.and_eq_true, Bool.and_eq_true] at htargets
  exact h.shows verb table row htargets.1.1

theorem Schema.Confines.not_targets (h : S.Confines s own) (hrow : own row = false) (verb : Verb) :
    S.targets s verb table condition row = false := by
  refine Bool.eq_false_iff.mpr fun htargets => ?_
  rw [h.own_of_targets htargets] at hrow
  cases hrow

theorem Schema.Confines.insertRows_rest [DecidableEq Key] (h : S.Confines s own)
    {rows inserted rows' : List Row} (hrows : S.insertRows s table rows inserted = .ok rows') :
    rows'.filter (fun row => !own row) = rows.filter fun row => !own row := by
  fun_induction Schema.insertRows S s table rows inserted with
  | case1 rows =>
    cases hrows
    rfl
  | case2 | case3 => cases hrows
  | case4 rows row more hadmits _ ih =>
    rw [Bool.not_eq_true, Bool.not_eq_false'] at hadmits
    rw [ih hrows, List.filter_append, List.filter_cons, h.admits _ _ _ hadmits]
    exact List.append_nil _

theorem Schema.Confines.updateRows_rest [DecidableEq Key] (h : S.Confines s own)
    {done rows rows' : List Row}
    (hrows : S.updateRows s table condition change done rows = .ok rows') :
    rows'.filter (fun row => !own row) = (done ++ rows).filter fun row => !own row := by
  fun_induction Schema.updateRows S s table condition change done rows with
  | case1 done =>
    cases hrows
    rw [List.append_nil]
  | case2 done row more _ ih => rw [ih hrows, List.append_assoc, List.singleton_append]
  | case3 | case4 | case5 => cases hrows
  | case6 done row more htargets _ hadmits _ ih =>
    rw [Bool.not_eq_true, Bool.not_eq_false'] at htargets
    simp only [Bool.not_eq_true, Bool.not_eq_false', Bool.and_eq_true] at hadmits
    rw [ih hrows]
    simp only [List.filter_append, List.filter_cons, h.admits _ _ _ hadmits.1,
      h.own_of_targets htargets, Bool.not_true, Bool.false_eq_true, if_false, List.filter_nil,
      List.append_nil]

theorem Schema.Confines.deleteRows_rest (h : S.Confines s own) {rows rows' : List Row}
    (hrows : S.deleteRows s table condition rows = .ok rows') :
    rows'.filter (fun row => !own row) = rows.filter fun row => !own row := by
  unfold Schema.deleteRows at hrows
  split at hrows
  · cases hrows
  · cases hrows
    rw [List.filter_filter]
    refine List.filter_congr fun row _ => ?_
    cases hrow : own row with
    | true => rfl
    | false =>
      rw [h.not_targets hrow]
      rfl

theorem Session.write_denied [DecidableEq Table] {verb : Verb}
    (h : s.role.granted table verb = false) (rows : Except Failure (List Row)) (n : Nat) :
    s.write db table verb rows n = (db, (.refused .privilege : Reply Answer)) := by
  refine if_pos ?_
  rw [h]
  rfl

theorem Session.write_rest [DecidableEq Table] {verb : Verb} {rows : Except Failure (List Row)}
    {n : Nat} (hrows : ∀ rows', rows = .ok rows' →
      rows'.filter (fun row => !own row) = (db table).filter fun row => !own row) :
    part (fun row => !own row) (s.write db table verb rows n : _ × Reply Answer).1 =
      part (fun row => !own row) db := by
  unfold Session.write
  split
  · rfl
  · split
    · rename_i rows'
      rw [part_update, hrows rows' rfl]
      exact Function.update_eq_self table (part (fun row => !own row) db)
    · rfl

/-- **What a confined session leaves alone**: the rows that are no part of its own. -/
theorem Schema.exec_rest [DecidableEq Table] [DecidableEq Key] (h : S.Confines s own)
    (db : Database Table Row) (statement : Statement Table Row Answer) :
    part (fun row => !own row) (S.exec s db statement).1 = part (fun row => !own row) db := by
  cases statement with
  | query answer => rfl
  | insert table rows => exact Session.write_rest fun _ => h.insertRows_rest
  | update table condition change => exact Session.write_rest fun _ => h.updateRows_rest
  | delete table condition => exact Session.write_rest fun _ => h.deleteRows_rest
  | truncate table =>
    exact congrArg (fun r : _ × Reply Answer => part (fun row => !own row) r.1)
      (Session.write_denied (h.truncate table) _ _)

/-! ## The part is as a database of its own -/

/-- Rows of the part and other rows have no key in common. -/
def Schema.Apart (S : Schema Table Setting Row Key) (own used : Row → Bool) : Prop :=
  ∀ table, ∀ key ∈ S.keys table, ∀ row row', used row = true → used row' = true →
    key row = key row' → own row = own row'

def Within (used : Row → Bool) (db : Database Table Row) : Prop :=
  ∀ table, ∀ row ∈ db table, used row = true

/-- Of such rows the statement makes such rows. -/
def Statement.Within (used : Row → Bool) : Statement Table Row Answer → Prop
  | .insert _ rows => ∀ seen, RowSecurity.Within used seen → ∀ row ∈ rows seen, used row = true
  | .update _ _ change =>
    ∀ seen, RowSecurity.Within used seen → ∀ row, used row = true → used (change seen row) = true
  | _ => True

variable {used : Row → Bool}

theorem Schema.insertRows_eq_ok [DecidableEq Key] {rows inserted rows' : List Row}
    (h : S.insertRows s table rows inserted = .ok rows') : rows' = rows ++ inserted := by
  fun_induction Schema.insertRows S s table rows inserted with
  | case1 rows =>
    cases h
    exact (List.append_nil _).symm
  | case2 | case3 => cases h
  | case4 rows row more _ _ ih => rw [ih h, List.append_assoc, List.singleton_append]

theorem Schema.deleteRows_sublist {rows rows' : List Row}
    (h : S.deleteRows s table condition rows = .ok rows') : rows'.Sublist rows := by
  unfold deleteRows at h
  split at h
  · cases h
  · cases h
    exact List.filter_sublist

theorem Schema.truncateRows_eq_ok {rows : List Row} (h : S.truncateRows table = .ok rows) :
    rows = [] := by
  unfold truncateRows at h
  split at h
  · cases h
  · cases h
    rfl

/-- A property of a table that a write keeps. -/
theorem Session.write_table [DecidableEq Table] {P : List Row → Prop} {verb : Verb}
    {rows : Except Failure (List Row)} {n : Nat} {other : Table} (hdb : P (db other))
    (hrows : other = table → ∀ rows', rows = .ok rows' → P rows') :
    P ((s.write db table verb rows n : Database Table Row × Reply Answer).1 other) := by
  unfold Session.write
  split
  · exact hdb
  · split
    · rename_i rows
      by_cases hother : other = table
      · have hself : Function.update db table rows other = rows := by
          rw [hother, Function.update_self]
        change P (Function.update db table rows other)
        rw [hself]
        exact hrows hother rows rfl
      · have hkept : Function.update db table rows other = db other :=
          Function.update_of_ne hother rows db
        change P (Function.update db table rows other)
        rw [hkept]
        exact hdb
    · exact hdb

/-- Triggers refuse whatever would change a row of the table or take one away. -/
def Schema.AppendOnly (S : Schema Table Setting Row Key) (table : Table) : Prop :=
  S.refuses table .update = true ∧ S.refuses table .delete = true ∧
    S.refuses table .truncate = true

theorem Schema.updateRows_appendOnly [DecidableEq Key] (h : S.AppendOnly table)
    {done rows rows' : List Row}
    (hrows : S.updateRows s table condition change done rows = .ok rows') :
    rows' = done ++ rows := by
  fun_induction Schema.updateRows S s table condition change done rows with
  | case1 done =>
    cases hrows
    exact (List.append_nil _).symm
  | case2 done row more _ ih => rw [ih hrows, List.append_assoc, List.singleton_append]
  | case3 | case4 | case5 => cases hrows
  | case6 done row more _ hrefuses => exact absurd h.1 hrefuses

theorem Schema.deleteRows_appendOnly (h : S.AppendOnly table) {rows rows' : List Row}
    (hrows : S.deleteRows s table condition rows = .ok rows') : rows' = rows := by
  rw [deleteRows, h.2.1, Bool.true_and] at hrows
  split at hrows
  · cases hrows
  · rename_i hnone
    cases hrows
    rw [Bool.not_eq_true, List.any_eq_false] at hnone
    refine List.filter_eq_self.mpr fun row hrow => ?_
    rw [Bool.eq_false_iff.mpr (hnone row hrow)]
    rfl

/-- **An append-only table only grows**, whatever role the session has. -/
theorem Schema.exec_appendOnly [DecidableEq Table] [DecidableEq Key] {other : Table}
    (h : S.AppendOnly other) (s : Session Table Setting) (db : Database Table Row)
    (statement : Statement Table Row Answer) : db other <+: (S.exec s db statement).1 other := by
  cases statement with
  | query answer => exact List.prefix_rfl
  | insert table rows =>
    refine Session.write_table (P := fun rows => db other <+: rows) List.prefix_rfl ?_
    rintro rfl rows' hrows
    rw [insertRows_eq_ok hrows]
    exact List.prefix_append _ _
  | update table condition change =>
    refine Session.write_table (P := fun rows => db other <+: rows) List.prefix_rfl ?_
    rintro rfl rows' hrows
    exact updateRows_appendOnly h hrows ▸ List.prefix_rfl
  | delete table condition =>
    refine Session.write_table (P := fun rows => db other <+: rows) List.prefix_rfl ?_
    rintro rfl rows' hrows
    exact deleteRows_appendOnly h hrows ▸ List.prefix_rfl
  | truncate table =>
    refine Session.write_table (P := fun rows => db other <+: rows) List.prefix_rfl ?_
    rintro rfl rows' hrows
    rw [truncateRows, h.2.2] at hrows
    cases hrows

/-! ## Unique keys -/

/-- No two rows of a table have a key in common. -/
def Schema.Distinct (S : Schema Table Setting Row Key) (db : Database Table Row) : Prop :=
  ∀ table, ∀ key ∈ S.keys table, ((db table).map key).Nodup

theorem Schema.nodup_of_not_clashes [DecidableEq Key] {done more : List Row} {row : Row}
    {key : Row → Key} (hclash : ¬ S.clashes table (done ++ more) row = true)
    (hkey : key ∈ S.keys table) (hrows : ((done ++ more).map key).Nodup) :
    ((done ++ row :: more).map key).Nodup := by
  refine (List.perm_middle.map key).nodup_iff.mpr (List.nodup_cons.mpr ⟨fun hmem => ?_, hrows⟩)
  obtain ⟨other, hother, heq⟩ := List.mem_map.mp hmem
  refine hclash (List.any_eq_true.mpr ⟨key, hkey, ?_⟩)
  exact List.any_eq_true.mpr ⟨other, hother, decide_eq_true heq⟩

theorem Schema.nodup_insertRows [DecidableEq Key] {rows inserted rows' : List Row} {key : Row → Key}
    (hkey : key ∈ S.keys table) (hnodup : (rows.map key).Nodup)
    (h : S.insertRows s table rows inserted = .ok rows') : (rows'.map key).Nodup := by
  fun_induction Schema.insertRows S s table rows inserted with
  | case1 rows =>
    cases h
    exact hnodup
  | case2 | case3 => cases h
  | case4 rows row more _ hclash ih =>
    rw [← List.append_nil rows] at hclash hnodup
    exact ih (nodup_of_not_clashes hclash hkey hnodup) h

theorem Schema.nodup_updateRows [DecidableEq Key] {done rows rows' : List Row} {key : Row → Key}
    (hkey : key ∈ S.keys table) (hnodup : ((done ++ rows).map key).Nodup)
    (h : S.updateRows s table condition change done rows = .ok rows') : (rows'.map key).Nodup := by
  fun_induction Schema.updateRows S s table condition change done rows with
  | case1 done =>
    cases h
    rwa [List.append_nil] at hnodup
  | case2 done row more _ ih =>
    refine ih ?_ h
    rwa [List.append_assoc, List.singleton_append]
  | case3 | case4 | case5 => cases h
  | case6 done row more _ _ _ hclash ih =>
    refine ih ?_ h
    rw [List.append_assoc, List.singleton_append]
    refine nodup_of_not_clashes hclash hkey (hnodup.sublist (List.Sublist.map key ?_))
    exact (List.sublist_cons_self row more).append_left done

theorem Schema.exec_distinct [DecidableEq Table] [DecidableEq Key] (hdb : S.Distinct db)
    (s : Session Table Setting) (statement : Statement Table Row Answer) :
    S.Distinct (S.exec s db statement).1 := by
  intro other key hkey
  have hrows := hdb other key hkey
  cases statement with
  | query answer => exact hrows
  | insert table rows =>
    refine Session.write_table (P := fun rows => (rows.map key).Nodup) hrows ?_
    rintro rfl rows' hinserted
    exact nodup_insertRows hkey hrows hinserted
  | update table condition change =>
    refine Session.write_table (P := fun rows => (rows.map key).Nodup) hrows ?_
    rintro rfl rows' hupdated
    exact nodup_updateRows hkey (List.nil_append _ ▸ hrows) hupdated
  | delete table condition =>
    refine Session.write_table (P := fun rows => (rows.map key).Nodup) hrows ?_
    rintro rfl rows' hdeleted
    exact hrows.sublist ((deleteRows_sublist hdeleted).map key)
  | truncate table =>
    refine Session.write_table (P := fun rows => (rows.map key).Nodup) hrows ?_
    rintro rfl rows' htruncated
    rw [truncateRows_eq_ok htruncated]
    exact List.nodup_nil

end

/-! ## Transactions -/

/-- A transaction of a client, which goes on by what it is told. A statement that is refused has no
effect: it runs in a savepoint, or the client rolls back. -/
inductive Program (Table Row Answer Result : Type) where
  | commit (result : Result)
  | rollback (result : Result)
  | step (statement : Statement Table Row Answer)
    (next : Reply Answer → Program Table Row Answer Result)

/-- Every statement the program may come to is of a kind. -/
def Program.All (P : Statement Table Row Answer → Prop) : Program Table Row Answer Result → Prop
  | .commit _ | .rollback _ => True
  | .step statement next => P statement ∧ ∀ reply, (next reply).All P

theorem Program.all_true (program : Program Table Row Answer Result) :
    program.All fun _ => True := by
  induction program with
  | commit | rollback => exact trivial
  | step statement next ih => exact ⟨trivial, ih⟩

section
variable [DecidableEq Table] [DecidableEq Key] (S : Schema Table Setting Row Key)

/-- Run a program in a transaction that began with `before`. -/
def Schema.perform (s : Session Table Setting) (before db : Database Table Row) :
    Program Table Row Answer Result → Database Table Row × Result
  | .commit result => (db, result)
  | .rollback result => (before, result)
  | .step statement next =>
    let (db', reply) := S.exec s db statement
    perform s before db' (next reply)

/-- A transaction of one of the clients. -/
structure Request (Client Table Row Answer Result : Type) where
  client : Client
  program : Program Table Row Answer Result

/-- Serve requests one after the other, and say what each client got. -/
def Schema.serve (sessions : Client → Session Table Setting) (db : Database Table Row) :
    List (Request Client Table Row Answer Result) → Database Table Row × List (Client × Result)
  | [] => (db, [])
  | request :: requests =>
    let (db', result) := S.perform (sessions request.client) db db request.program
    let (db'', results) := serve sessions db' requests
    (db'', (request.client, result) :: results)

end

section
variable [DecidableEq Table] [DecidableEq Key] {S : Schema Table Setting Row Key}
  {s : Session Table Setting} {own used : Row → Bool} {before db : Database Table Row}

/-- What every statement keeps, a transaction keeps. -/
theorem Schema.perform_invariant {Q : Statement Table Row Answer → Prop}
    {P : Database Table Row → Prop}
    (hexec : ∀ db statement, Q statement → P db → P (S.exec s db statement).1)
    {program : Program Table Row Answer Result} (hprogram : program.All Q) (hbefore : P before)
    (hdb : P db) : P (S.perform s before db program).1 := by
  induction program generalizing db with
  | commit result => exact hdb
  | rollback result => exact hbefore
  | step statement next ih => exact ih _ (hprogram.2 _) (hexec db statement hprogram.1 hdb)

/-- What every statement of every client keeps, requests keep. -/
theorem Schema.serve_invariant {sessions : Client → Session Table Setting}
    {Q : Client → Statement Table Row Answer → Prop} {P : Database Table Row → Prop}
    (hexec : ∀ client db statement, Q client statement → P db →
      P (S.exec (sessions client) db statement).1)
    {requests : List (Request Client Table Row Answer Result)}
    (hrequests : ∀ request ∈ requests, request.program.All (Q request.client)) (hdb : P db) :
    P (S.serve sessions db requests).1 := by
  induction requests generalizing db with
  | nil => exact hdb
  | cons request requests ih =>
    rw [List.forall_mem_cons] at hrequests
    exact ih hrequests.2 (perform_invariant (hexec request.client) hrequests.1 hdb hdb)

end

end ComplyLayer.Theory.RowSecurity
