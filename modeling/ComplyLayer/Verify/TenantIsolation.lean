import ComplyLayer.Tenancy.Policies
import ComplyLayer.Verify.Scoping

/-!
# Tenants are kept apart by the database

A role that row security applies to reads and writes the rows of the tenant of its setting. With
`tenant_scope` around it, that is the tenant of the innermost scope (`scoped_statements`). Requests
that present keys are then served as on a database that holds the rows of one tenant alone
(`served_as_alone`), and the trail only grows, whatever the role (`trail_only_grows`).
-/

namespace ComplyLayer

open Theory RowSecurity

/-- Row security applies to the role, and it may not truncate. -/
structure RowSecured (role : RowSecurity.Role TenantTable) : Prop where
  bypasses : role.bypasses = false
  truncate : ∀ table, role.granted table .truncate = false

theorem rowSecured_complylayerApp : RowSecured complylayerApp := ⟨rfl, fun _ => rfl⟩

def ofTenant (tenantId : String) (row : TenantRow) : Bool := row.tenantId = tenantId

theorem some_eq_ofTenant (tenantId : String) :
    (fun row : TenantRow => decide (some tenantId = some row.tenantId)) = ofTenant tenantId := by
  funext row
  exact decide_eq_decide.mpr
    ⟨fun heq => (Option.some.inj heq).symm, fun heq => congrArg some heq.symm⟩

section
variable {triggers : List Trigger} {role : RowSecurity.Role TenantTable} {settings : Settings}
  {db : RowSecurity.Database TenantTable TenantRow} {used : TenantRow → Bool}

/-! ## The policies -/

theorem any_policies (hkey : settings.resolvingKey = none) (huser : settings.resolvingUser = none)
    (p : Policy Settings TenantRow → Settings → TenantRow → Bool) (verb : Verb)
    (table : TenantTable) (row : TenantRow)
    (hp : ∀ flag, flag settings = none → p (resolution flag) settings row = false) :
    ((policies table).any fun policy => decide (verb ∈ policy.verbs) && p policy settings row) =
      (decide (verb ∈ tenantIsolation.verbs) && p tenantIsolation settings row) := by
  cases table <;>
    simp only [policies, List.any_cons, List.any_nil, Bool.or_false, hp _ hkey, hp _ huser,
      Bool.and_false]

theorem shows_eq (hrole : role.bypasses = false) (hkey : settings.resolvingKey = none)
    (huser : settings.resolvingUser = none) (verb : Verb) (table : TenantTable) (row : TenantRow) :
    (tenantSchema triggers).shows ⟨role, settings⟩ verb table row =
      (decide (verb ∈ tenantIsolation.verbs) &&
        decide (settings.tenantId = some row.tenantId)) := by
  rw [Schema.shows, hrole, Bool.false_or]
  exact any_policies hkey huser Policy.shows verb table row fun flag hflag => by
    simp [resolution, hflag]

theorem admits_eq (hrole : role.bypasses = false) (hkey : settings.resolvingKey = none)
    (huser : settings.resolvingUser = none) (verb : Verb) (table : TenantTable) (row : TenantRow) :
    (tenantSchema triggers).admits ⟨role, settings⟩ verb table row =
      (decide (verb ∈ tenantIsolation.verbs) &&
        decide (settings.tenantId = some row.tenantId)) := by
  rw [Schema.admits, hrole, Bool.false_or]
  exact any_policies hkey huser Policy.admits verb table row fun flag hflag => by
    simp [resolution, hflag]

/-- A session without a flag is confined to the tenant of its setting. -/
theorem confines_setting (triggers : List Trigger) (hrole : RowSecured role)
    (setting : Option String) :
    (tenantSchema triggers).Confines ⟨role, { tenantId := setting }⟩
      fun row => decide (setting = some row.tenantId) where
  shows verb table row h := by
    rw [shows_eq hrole.bypasses rfl rfl, Bool.and_eq_true] at h
    exact h.2
  admits verb table row h := by
    rw [admits_eq hrole.bypasses rfl rfl, Bool.and_eq_true] at h
    exact h.2
  truncate := hrole.truncate

/-- With the flag on, all rows of the table are seen. -/
theorem seen_flag (triggers : List Trigger) (role : RowSecurity.Role TenantTable)
    (db : RowSecurity.Database TenantTable TenantRow) (settings : Settings) (table : TenantTable)
    {flag : Settings → Option String} (hpolicy : resolution flag ∈ policies table)
    (hflag : flag settings = some "on") :
    (tenantSchema triggers).seen ⟨role, settings⟩ db table = db table := by
  refine List.filter_eq_self.mpr fun row _ => ?_
  rw [Schema.shows, Bool.or_eq_true]
  refine .inr (List.any_eq_true.mpr ⟨resolution flag, hpolicy, ?_⟩)
  exact decide_eq_true hflag

theorem resolveApiKey_eq (triggers : List Trigger) (role : RowSecurity.Role TenantTable)
    (db : RowSecurity.Database TenantTable TenantRow) (settings : Settings)
    (candidatePrefix : String) : resolveApiKey triggers role db settings candidatePrefix =
      ((db .apiKey).find? fun row => row.column "prefix" = some candidatePrefix).map
        TenantRow.resolvedKey := by
  have hpolicy : resolution Settings.resolvingKey ∈ policies .apiKey :=
    List.mem_cons_of_mem _ List.mem_cons_self
  have hseen := seen_flag triggers role db { settings with resolvingKey := some "on" } .apiKey
    hpolicy rfl
  rw [resolveApiKey, hseen]

theorem resolveDashboardUser_eq (triggers : List Trigger) (role : RowSecurity.Role TenantTable)
    (db : RowSecurity.Database TenantTable TenantRow) (settings : Settings)
    (candidateUserId : Int) : resolveDashboardUser triggers role db settings candidateUserId =
      ((db .dashboardUser).find?
        fun row => row.column "user_id" = some (toString candidateUserId)).map
          fun row => (row.column "id", row.tenantId) := by
  have hpolicy : resolution Settings.resolvingUser ∈ policies .dashboardUser :=
    List.mem_cons_of_mem _ List.mem_cons_self
  have hseen := seen_flag triggers role db { settings with resolvingUser := some "on" }
    .dashboardUser hpolicy rfl
  rw [resolveDashboardUser, hseen]

theorem find?_of_nodup {α β : Type} {key : α → β} {q : α → Bool} {l : List α} {a : α}
    (hnodup : (l.map key).Nodup) (hmem : a ∈ l) (ha : q a = true)
    (hkey : ∀ b, q b = true → key b = key a) : l.find? q = some a := by
  cases hfind : l.find? q with
  | none => exact absurd ha (List.find?_eq_none.mp hfind a hmem)
  | some b =>
    have hsame := hkey b (List.find?_some hfind)
    have hb := List.mem_of_find?_eq_some hfind
    exact congrArg some (List.inj_on_of_nodup_map hnodup hb hmem hsame)

/-- **A prefix resolves to its key, and a user to their profile**, after whatever requests of
whatever roles, for whatever role may execute the function, and any settings: no other row has it. -/
theorem resolves_the_row (hdistinct : (tenantSchema triggers).Distinct db)
    (sessions : Client → Session TenantTable Settings)
    (requests : List (RowSecurity.Request Client TenantTable TenantRow Answer Result))
    (role : RowSecurity.Role TenantTable) (settings : Settings) :
    let db' := ((tenantSchema triggers).serve sessions db requests).1
    (∀ row ∈ db' .apiKey, ∀ candidatePrefix, row.column "prefix" = some candidatePrefix →
      resolveApiKey triggers role db' settings candidatePrefix = some row.resolvedKey) ∧
    ∀ row ∈ db' .dashboardUser, ∀ candidateUserId,
      row.column "user_id" = some (toString candidateUserId) →
        resolveDashboardUser triggers role db' settings candidateUserId =
          some (row.column "id", row.tenantId) := by
  intro db'
  have hkept : (tenantSchema triggers).Distinct db' :=
    Schema.serve_invariant (P := (tenantSchema triggers).Distinct) (Q := fun _ _ => True)
      (fun _ db' statement _ hdb' => Schema.exec_distinct hdb' _ statement)
      (fun request _ => request.program.all_true) hdistinct
  refine ⟨fun row hrow candidatePrefix hprefix => ?_, fun row hrow candidateUserId huser => ?_⟩
  · have hunique := hkept .apiKey (fun row => ["prefix"].map row.column)
      (List.mem_map.mpr ⟨["prefix"], by decide, rfl⟩)
    rw [resolveApiKey_eq,
      find?_of_nodup hunique hrow (decide_eq_true hprefix) fun other hother => ?_]
    · rfl
    · rw [List.map_singleton, List.map_singleton, of_decide_eq_true hother, hprefix]
  · have hunique := hkept .dashboardUser (fun row => ["user_id"].map row.column)
      (List.mem_map.mpr ⟨["user_id"], by decide, rfl⟩)
    rw [resolveDashboardUser_eq,
      find?_of_nodup hunique hrow (decide_eq_true huser) fun other hother => ?_]
    · rfl
    · rw [List.map_singleton, List.map_singleton, of_decide_eq_true hother, huser]

end

/-- A row whose identifiers are the name of its tenant. -/
def tenantRow (tenantId : String) : TenantRow :=
  ⟨tenantId, .ofList [("id", tenantId), ("prefix", tenantId), ("user_id", tenantId)]⟩

/-- One such row of each of two tenants in every table. -/
def twoTenants : RowSecurity.Database TenantTable TenantRow :=
  fun _ => [tenantRow "tnt_alpha", tenantRow "tnt_beta"]

/-- Archive every rule. -/
def archiveAll : RowSecurity.Program TenantTable TenantRow Unit Unit :=
  .step (.update .rule (fun _ _ => true)
    fun _ row => { row with columns := row.columns.set "state" "archived" }) fun _ => .commit ()

theorem resolves_the_row_twoTenants :
    resolveApiKey migratedTriggers complylayerApp ((tenantSchema migratedTriggers).serve
      (tenantSession complylayerApp) twoTenants [⟨"tnt_beta", archiveAll⟩]).1
        { tenantId := some "tnt_beta" } "tnt_alpha" = some (tenantRow "tnt_alpha").resolvedKey := by
  have hdistinct : (tenantSchema migratedTriggers).Distinct twoTenants := by
    have hnames : ∀ table, ∀ names ∈ uniqueColumns table,
        ((twoTenants table).map fun row => names.map row.column).Nodup := by
      intro table
      cases table <;> decide
    intro table key hkey
    obtain ⟨names, hmem, rfl⟩ := List.mem_map.mp hkey
    exact hnames table names hmem
  exact (resolves_the_row hdistinct (tenantSession complylayerApp) [⟨"tnt_beta", archiveAll⟩]
    complylayerApp { tenantId := some "tnt_beta" }).1 (tenantRow "tnt_alpha") (.head _)
      "tnt_alpha" rfl

theorem Scoping.mem_of_innermost {s : Scoping} (h : s.innermost = some tenantId) :
    ∃ previous, .scope tenantId previous ∈ s.blocks := by
  obtain ⟨block, hblock, hscope⟩ := List.exists_of_findSome?_eq_some h
  cases block with
  | atomic => cases hscope
  | scope other previous =>
    cases hscope
    exact ⟨previous, hblock⟩

/-- A setting that names a tenant is that of an open scope. -/
theorem Scoping.Nests.innermost_of_setting {s : Scoping} (h : s.Nests) (htenant : tenantId ≠ "")
    (hsetting : s.connection.setting = some tenantId) : s.innermost = some tenantId := by
  cases hinnermost : s.innermost with
  | none =>
    have hunset := h.unset hinnermost
    rw [hsetting] at hunset
    exact absurd hunset htenant
  | some other =>
    rw [← h.innermost hinnermost, hsetting]

/-- What a connection leaves of a tenant whose scope it does not enter. -/
structure ScopedConnection.Untouched (tenantId : String)
    (db : RowSecurity.Database TenantTable TenantRow) (w : ScopedConnection) : Prop where
  nests : w.scoping.Nests
  blocks : ∀ previous, .scope tenantId previous ∉ w.scoping.blocks
  rows : part (ofTenant tenantId) w.db = part (ofTenant tenantId) db
  saved : ∀ before ∈ w.saved, part (ofTenant tenantId) before = part (ofTenant tenantId) db

section
variable {triggers : List Trigger} {role : RowSecurity.Role TenantTable} {tenantId : String}
  {db : RowSecurity.Database TenantTable TenantRow} {w w' : ScopedConnection}

theorem ScopedConnection.Untouched.scope (h : w.Untouched tenantId db) {event : ScopeEvent}
    {scoping : Scoping} (hevent : event ≠ .scope tenantId)
    (hstep : scopeStep w.scoping event = some scoping) :
    (w.afterBlock scoping event).Untouched tenantId db := by
  have hnests := nests_step _ _ _ h.nests hstep
  cases event with
  | scope other =>
    cases hstep
    refine ⟨hnests, fun previous hmem => ?_, h.rows, List.forall_mem_cons.mpr ⟨h.rows, h.saved⟩⟩
    rcases List.mem_cons.mp hmem with heq | hmem
    · cases heq
      exact hevent rfl
    · exact h.blocks previous hmem
  | atomic =>
    cases hstep
    refine ⟨hnests, fun previous hmem => ?_, h.rows, List.forall_mem_cons.mpr ⟨h.rows, h.saved⟩⟩
    rcases List.mem_cons.mp hmem with heq | hmem
    · cases heq
    · exact h.blocks previous hmem
  | leave raised =>
    refine ⟨hnests, fun previous hmem => ?_, ?_, fun before hbefore => ?_⟩
    · cases hblocks : w.scoping.blocks with
      | nil =>
        rw [scopeStep, Scoping.leave, hblocks] at hstep
        cases hstep
      | cons block others =>
        obtain ⟨before, outer, after, -, hleave, -, -⟩ := h.nests.leave hblocks raised
        cases hleave.symm.trans hstep
        exact h.blocks previous (hblocks ▸ List.mem_cons_of_mem block hmem)
    · rw [afterBlock]
      cases raised with
      | false => exact h.rows
      | true =>
        cases hsaved : w.saved with
        | nil => exact h.rows
        | cons before others => exact h.saved before (hsaved ▸ List.mem_cons_self)
    · exact h.saved before (List.mem_of_mem_tail hbefore)

theorem ScopedConnection.Untouched.execute (hrole : RowSecured role) (htenant : tenantId ≠ "")
    (h : w.Untouched tenantId db)
    (statement : RowSecurity.Statement TenantTable TenantRow Answer) :
    { w with db := ((tenantSchema triggers).exec (w.session role) w.db statement).1 }.Untouched
      tenantId db := by
  refine ⟨h.nests, h.blocks, Eq.trans ?_ h.rows, h.saved⟩
  have hconfines := confines_setting triggers hrole w.scoping.connection.setting
  refine part_eq_of_rest (fun row hrow => ?_) (Schema.exec_rest hconfines w.db statement)
  refine decide_eq_false fun hsetting => ?_
  rw [of_decide_eq_true hrow] at hsetting
  obtain ⟨previous, hmem⟩ :=
    Scoping.mem_of_innermost (h.nests.innermost_of_setting htenant hsetting)
  exact h.blocks previous hmem

/-- What is seen without a flag: the rows of the tenant of the setting. -/
theorem seen_setting (hrole : RowSecured role) (setting : Option String)
    (db : RowSecurity.Database TenantTable TenantRow) :
    (tenantSchema triggers).seen ⟨role, { tenantId := setting }⟩ db =
      part (fun row => decide (setting = some row.tenantId)) db := by
  funext table
  refine List.filter_congr fun row _ => ?_
  rw [shows_eq hrole.bypasses rfl rfl]
  rfl

/-- **Scopes decide what a connection sees and writes.** A statement sees the rows of the tenant of
the innermost scope, and outside of all scopes at most rows that name no tenant. In a whole run,
rollbacks included, the rows of a tenant whose scope is never entered stay as they are. -/
theorem scoped_statements (hrole : RowSecured role) {events : List (ScopedEvent Answer)}
    (hrun : run (ScopedConnection.step triggers role) { db := db } events = some w) :
    (∀ tenantId, w.scoping.innermost = some tenantId →
      (tenantSchema triggers).seen (w.session role) w.db = part (ofTenant tenantId) w.db) ∧
    (w.scoping.innermost = none → ∀ table, ∀ row ∈
      (tenantSchema triggers).seen (w.session role) w.db table, row.tenantId = "") ∧
    ∀ tenantId, tenantId ≠ "" → .block (.scope tenantId) ∉ events →
      part (ofTenant tenantId) w.db = part (ofTenant tenantId) db := by
  have hnests : w.scoping.Nests := by
    refine run_invariant (fun w : ScopedConnection => w.scoping.Nests) ?_ nests_start hrun
    intro w event w' hw hstep
    cases event with
    | execute statement =>
      cases hstep
      exact hw
    | block event =>
      obtain ⟨scoping, hscoping, rfl⟩ := Option.map_eq_some_iff.mp hstep
      have hnests := nests_step _ _ _ hw hscoping
      cases event <;> exact hnests
  refine ⟨fun tenantId hinnermost => ?_, fun hinnermost table row hrow => ?_,
    fun tenantId htenant hevents => ?_⟩
  · rw [ScopedConnection.session, hnests.innermost hinnermost, seen_setting hrole, some_eq_ofTenant]
  · rw [ScopedConnection.session, seen_setting hrole] at hrow
    have hsetting := of_decide_eq_true (List.mem_filter.mp hrow).2
    have hunset := hnests.unset hinnermost
    rwa [hsetting] at hunset
  · have hguard : Along (ScopedConnection.step triggers role)
        (fun _ event => event ≠ .block (.scope tenantId)) { db := db } events :=
      along_of_forall fun event hevent _ heq => hevents (heq ▸ hevent)
    have hkept : ScopedConnection.Untouched tenantId db w := by
      refine hguard.invariant ?_ ⟨nests_start, fun _ => List.not_mem_nil, rfl,
        List.forall_mem_nil _⟩ hrun
      intro w event w' hw hevent hstep
      cases event with
      | execute statement =>
        cases hstep
        exact hw.execute hrole htenant statement
      | block event =>
        obtain ⟨scoping, hscoping, rfl⟩ := Option.map_eq_some_iff.mp hstep
        exact hw.scope (fun heq => hevent (congrArg _ heq)) hscoping
    exact hkept.rows

end

/-- A deletion that an exception rolls back. -/
def rolledBack : List (ScopedEvent Unit) :=
  [.block (.scope "tnt_alpha"), .execute (.delete .rule fun _ _ => true), .block (.leave true)]

theorem scoped_statements_rolledBack : ∃ w : ScopedConnection,
    run (ScopedConnection.step migratedTriggers complylayerApp) { db := twoTenants } rolledBack =
        some w ∧
      part (ofTenant "tnt_beta") w.db = part (ofTenant "tnt_beta") twoTenants := by
  have hrun : run (ScopedConnection.step migratedTriggers complylayerApp) { db := twoTenants }
      rolledBack = some _ := rfl
  exact ⟨_, hrun, (scoped_statements rowSecured_complylayerApp hrun).2.2 "tnt_beta" (by decide)
    (by simp [rolledBack])⟩

/-! ## The trail -/

/-- The triggers of the migrations are there. -/
def Migrated (triggers : List Trigger) : Prop := migratedTriggers ⊆ triggers

theorem Migrated.appendOnly {triggers : List Trigger} (h : Migrated triggers) {table : TenantTable}
    (htable : table = .auditRecord ∨ table = .auditCheckpoint) :
    (tenantSchema triggers).AppendOnly table := by
  have hrefuses : ∀ t ∈ migratedTriggers, ∀ verb ∈ t.verbs,
      (tenantSchema triggers).refuses t.table verb = true := fun t ht verb hverb =>
    List.any_eq_true.mpr ⟨t, h ht, decide_eq_true ⟨rfl, hverb⟩⟩
  simp only [migratedTriggers, List.forall_mem_cons, List.not_mem_nil, false_imp_iff,
    implies_true, and_true] at hrefuses
  obtain ⟨⟨hupdate, hdelete⟩, htruncate, ⟨hupdate', hdelete'⟩, htruncate'⟩ := hrefuses
  rcases htable with rfl | rfl
  · exact ⟨hupdate, hdelete, htruncate⟩
  · exact ⟨hupdate', hdelete', htruncate'⟩

/-- **The trail only grows.** Whatever roles serve the requests, and whatever the three settings are,
no record and no checkpoint is changed, taken away or moved while the triggers are there and fire. -/
theorem trail_only_grows {triggers : List Trigger} (h : Migrated triggers)
    (sessions : Client → Session TenantTable Settings)
    (db : RowSecurity.Database TenantTable TenantRow)
    (requests : List (RowSecurity.Request Client TenantTable TenantRow Answer Result)) :
    db .auditRecord <+: ((tenantSchema triggers).serve sessions db requests).1 .auditRecord ∧
      db .auditCheckpoint <+:
        ((tenantSchema triggers).serve sessions db requests).1 .auditCheckpoint := by
  have hkept : ∀ table, table = .auditRecord ∨ table = .auditCheckpoint →
      db table <+: ((tenantSchema triggers).serve sessions db requests).1 table := by
    intro table htable
    refine Schema.serve_invariant (P := fun db' => db table <+: db' table)
      (Q := fun _ _ => True) ?_ (fun request _ => request.program.all_true) List.prefix_rfl
    intro client db' statement _ hdb'
    exact hdb'.trans (Schema.exec_appendOnly (h.appendOnly htable) _ db' statement)
  exact ⟨hkept _ (.inl rfl), hkept _ (.inr rfl)⟩

/-- A role that no policy and no privilege stops. -/
def superuser : RowSecurity.Role TenantTable := ⟨true, fun _ _ => true⟩

theorem trail_only_grows_superuser :
    twoTenants .auditRecord <+: ((tenantSchema migratedTriggers).serve
      (fun _ : Unit => ⟨superuser, {}⟩) twoTenants
      [⟨(), .step (.delete .auditRecord fun _ _ => true) fun _ =>
        .step (.truncate .auditRecord) fun _ : Reply Unit => .commit ()⟩]).1 .auditRecord :=
  (trail_only_grows (fun _ h => h) _ _ _).1

end ComplyLayer
