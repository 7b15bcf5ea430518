import ComplyLayer.Rules.Transitions
import ComplyLayer.Theory.Interleaving

/-!
# Requests on a rule, a step at a time

A management request on a rule loads the row, checks what it loaded and writes. `edit_draft` writes
every column of the row it loaded, and the others their own columns of the row as it is. No lock is
held between the load and the write, so those of other requests come between them.
-/

namespace ComplyLayer

open Theory

/-- The lifecycle operations that load a row and write it. -/
inductive RuleOp where
  | editDraft (patch : RulePatch)
  | approve (reason : Value) (now : Int)
  | moveToShadow
  | activate (emergencyReason : Value) (now : Int)
  | archive (reason : Value)

structure RuleRequest where
  tenantId : String
  actor : Actor
  ruleId : String
  op : RuleOp

theorem ManagementDb.Same.equivalence : Equivalence ManagementDb.Same where
  refl _ := ⟨rfl, rfl, rfl⟩
  symm h := ⟨h.rules.symm, h.versions.symm, h.lists.symm⟩
  trans h h' := ⟨h'.rules.trans h.rules, h'.versions.trans h.versions, h'.lists.trans h.lists⟩

namespace RuleRequest

/-- The step of a lifecycle run in which the request loads and writes at once. -/
def step (r : RuleRequest) : LifecycleStep where
  tenantId := r.tenantId
  actor := r.actor
  op := match r.op with
    | .editDraft patch => .editDraft r.ruleId patch
    | .approve reason now => .approve r.ruleId reason now
    | .moveToShadow => .moveToShadow r.ruleId
    | .activate emergencyReason now => .activate r.ruleId emergencyReason now
    | .archive reason => .archive r.ruleId reason

def load (r : RuleRequest) (db : ManagementDb) : Except Refusal Rule :=
  db.load r.tenantId r.ruleId

/-- The operation, on the row that was loaded and the database as it is. -/
def operate (py : Python) (r : RuleRequest) (db : ManagementDb) (rule : Rule) :
    Except Refusal (ManagementDb × Rule) :=
  match r.op with
  | .editDraft patch => editDraft py db rule r.actor patch
  | .approve reason now => approve db rule r.actor reason now
  | .moveToShadow => moveToShadow db rule r.actor
  | .activate emergencyReason now => activate db rule r.actor emergencyReason now
  | .archive reason => archive db rule r.actor reason

/-- What the request leaves, and whether it succeeds. -/
def write (py : Python) (r : RuleRequest) (loaded : Except Refusal Rule) (db : ManagementDb) :
    ManagementDb × Bool :=
  match loaded >>= r.operate py db with
  | .ok (db', _) => (db', true)
  | .error _ => (db, false)

/-- The checks an operation makes of the row it loaded. -/
def check (py : Python) (r : RuleRequest) (rule : Rule) : Except Refusal Unit :=
  match r.op with
  | .editDraft patch => do
    permit r.actor .editDraft
    requireEditable rule
      " cannot be edited; archive it and create a new version, so the change is visible in the trail"
    validatePatch py patch
  | .approve _ _ => do
    permit r.actor .approve
    permitNotAuthor r.actor rule.createdBy .approve
  | .moveToShadow => permit r.actor .shadow
  | .activate emergencyReason _ => do
    permit r.actor .activate
    requireApproved rule r.actor emergencyReason
  | .archive _ => permit r.actor .archive

/-- The request is an edit that leaves the content it loaded. -/
def Idle (r : RuleRequest) (loaded : Rule) : Prop :=
  ∃ patch, r.op = .editDraft patch ∧ patch.apply loaded.content = loaded.content

/-- The checks pass, and there is something to write. -/
def Passes (py : Python) (r : RuleRequest) (loaded : Rule) : Prop :=
  r.check py loaded = .ok () ∧ ¬ r.Idle loaded

/-- The row that is written, of the row that was loaded and the row as it is. -/
def row (r : RuleRequest) (loaded current : Rule) : Rule :=
  match r.op with
  | .editDraft patch => loaded.edit patch
  | .approve _ now => { current with approvedBy := r.actor.id, approvedAt := some now }
  | .moveToShadow => { current with state := .shadow }
  | .activate _ now => { current with state := .active, activatedAt := some now }
  | .archive _ => { current with state := .archived }

def publishes (r : RuleRequest) : Bool :=
  match r.op with
  | .activate _ _ | .archive _ => true
  | _ => false

/-- The request is an edit to a name and version that are taken. -/
def Taken (r : RuleRequest) (db : ManagementDb) (loaded : Rule) : Prop :=
  ∃ patch, r.op = .editDraft patch ∧ db.nameVersionTaken (loaded.edit patch)

/-- A request that writes the row, and publishes where it is one that does. -/
structure Wrote (r : RuleRequest) (db : ManagementDb) (row : Rule)
    (result : ManagementDb × Bool) : Prop where
  succeeds : result.2 = true
  rules : result.1.rules = db.rules.put row
  lists : result.1.lists = db.lists
  versions : if r.publishes then
      db.versions.insert?
        ({ db with rules := db.rules.put row }.publication row.tenantId r.actor.id) =
          some result.1.versions
    else result.1.versions = db.versions

section
variable {py : Python} {r : RuleRequest} {db db' : ManagementDb} {loaded current : Rule}

/-- A request whose load and write come together is a step of the lifecycle. -/
theorem write_load (py : Python) (r : RuleRequest) (db : ManagementDb) :
    r.write py (r.load db) db = match r.step.perform py db with
      | .ok (db', _) => (db', true)
      | .error _ => (db, false) := by
  have hthen {x : Except Refusal (ManagementDb × Rule)} (f : ManagementDb × Rule → List Entry) :
      (match x with
        | .ok (db', _) => (db', true)
        | .error _ => (db, false)) =
      match x >>= fun result => pure (f := Except Refusal) (result.1, f result) with
        | .ok (db', _) => (db', true)
        | .error _ => (db, false) := by
    cases x <;> rfl
  obtain ⟨tenantId, actor, ruleId, op⟩ := r
  unfold write load operate step LifecycleStep.perform
  cases op <;> dsimp only <;> cases db.load tenantId ruleId with
  | error e => rfl
  | ok rule => exact hthen _

/-! ## Checks that do not pass -/

/-- The checks come first. -/
theorem operate_of_error {e : Refusal} (db : ManagementDb) (h : r.check py loaded = .error e) :
    r.operate py db loaded = .error e := by
  obtain ⟨tenantId, actor, ruleId, op⟩ := r
  unfold check at h
  unfold operate
  cases op with
  | editDraft patch =>
    rcases bind_eq_error.mp h with h | ⟨_, hmay, h⟩
    · exact bind_eq_error.mpr (.inl h)
    · refine bind_eq_error.mpr (.inr ⟨_, hmay, ?_⟩)
      rcases bind_eq_error.mp h with h | ⟨_, heditable, h⟩
      · exact bind_eq_error.mpr (.inl h)
      · exact bind_eq_error.mpr (.inr ⟨_, heditable, bind_eq_error.mpr (.inl h)⟩)
  | approve reason now =>
    rcases bind_eq_error.mp h with h | ⟨_, hmay, h⟩
    · exact bind_eq_error.mpr (.inl h)
    · exact bind_eq_error.mpr (.inr ⟨_, hmay, bind_eq_error.mpr (.inl h)⟩)
  | moveToShadow => exact bind_eq_error.mpr (.inl h)
  | activate emergencyReason now =>
    rcases bind_eq_error.mp h with h | ⟨_, hmay, h⟩
    · exact bind_eq_error.mpr (.inl h)
    · exact bind_eq_error.mpr (.inr ⟨_, hmay, bind_eq_error.mpr (.inl h)⟩)
  | archive reason => exact bind_eq_error.mpr (.inl h)

theorem editDraft_of_check {patch : RulePatch} (hop : r.op = .editDraft patch)
    (h : r.check py loaded = .ok ()) : may r.actor.role .editDraft ∧ loaded.state.Editable ∧
      validatePatch py patch = .ok () := by
  unfold check at h
  rw [hop] at h
  dsimp only at h
  rw [seq_eq_ok, seq_eq_ok, permit_eq_ok_iff, requireEditable_eq_ok_iff] at h
  exact h

theorem operate_of_idle (db : ManagementDb) (h : r.check py loaded = .ok ())
    (hidle : r.Idle loaded) : r.operate py db loaded = .ok (db, loaded) := by
  obtain ⟨patch, hop, hsame⟩ := hidle
  obtain ⟨hmay, heditable, hvalid⟩ := editDraft_of_check hop h
  unfold operate
  rw [hop]
  dsimp only
  rw [editDraft, permit_eq_ok_iff.mpr hmay, requireEditable_eq_ok_iff.mpr heditable, hvalid]
  exact if_pos (changesOf_isEmpty_iff.mpr hsame)

theorem write_of_operate_error {e : Refusal} (h : r.operate py db loaded = .error e) :
    r.write py (.ok loaded) db = (db, false) := by
  have hoperate : (Except.ok loaded >>= r.operate py db) = .error e := h
  rw [write, hoperate]

theorem write_of_idle (h : r.check py loaded = .ok ()) (hidle : r.Idle loaded) :
    r.write py (.ok loaded) db = (db, true) := by
  have hoperate : (Except.ok loaded >>= r.operate py db) = .ok (db, loaded) :=
    operate_of_idle db h hidle
  rw [write, hoperate]

/-- A request whose checks do not pass, or that has nothing to write, does the same nothing to
every database. -/
theorem write_of_not_passes (h : ¬ r.Passes py loaded) :
    ∃ o, ∀ db, r.write py (.ok loaded) db = (db, o) := by
  cases hcheck : r.check py loaded with
  | error e =>
    exact ⟨false, fun db => write_of_operate_error (operate_of_error db hcheck)⟩
  | ok _ =>
    have hidle : r.Idle loaded := by
      by_contra hidle
      exact h ⟨hcheck, hidle⟩
    exact ⟨true, fun db => write_of_idle hcheck hidle⟩

/-! ## Writes -/

theorem Wrote.of_puts {row : Rule} (hpublishes : r.publishes = false) (h : db.Puts db' row) :
    r.Wrote db row (db', true) := by
  refine ⟨rfl, h.rules, h.lists, ?_⟩
  rw [hpublishes]
  exact h.versions

theorem Wrote.of_putsAndPublishes {row : Rule} (hpublishes : r.publishes = true)
    (h : db.PutsAndPublishes db' row r.actor.id) : r.Wrote db row (db', true) := by
  refine ⟨rfl, h.rules, h.lists, ?_⟩
  rw [hpublishes]
  exact h.versions

theorem Wrote.of_operate {row : Rule} (h : ∃ rule, r.operate py db loaded = .ok (db', rule))
    (hwrote : r.Wrote db row (db', true)) : r.Wrote db row (r.write py (.ok loaded) db) := by
  obtain ⟨rule, h⟩ := h
  have hoperate : (Except.ok loaded >>= r.operate py db) = .ok (db', rule) := h
  rw [write, hoperate]
  exact hwrote

section
variable {actor : Actor}

/-- An edit to a name and version that are taken fails. -/
theorem editDraft_of_taken {patch : RulePatch} (hmay : may actor.role .editDraft)
    (heditable : loaded.state.Editable) (hvalid : validatePatch py patch = .ok ())
    (hchange : patch.apply loaded.content ≠ loaded.content)
    (htaken : db.nameVersionTaken (loaded.edit patch)) :
    editDraft py db loaded actor patch = .error .integrityError := by
  rw [editDraft, permit_eq_ok_iff.mpr hmay, requireEditable_eq_ok_iff.mpr heditable, hvalid]
  refine (if_neg fun hempty => hchange (changesOf_isEmpty_iff.mp hempty)).trans ?_
  exact bind_eq_error.mpr (.inl (if_pos htaken))

/-- The approval goes on the row as it is. -/
theorem approve_writes (hfound : db.rules.find? loaded.id = some current)
    (hmay : may actor.role .approve) (hauthor : actor.id ≠ loaded.createdBy) : ∃ db' rule,
      approve db loaded actor reason now = .ok (db', rule) ∧
      db.Puts db' { current with approvedBy := actor.id, approvedAt := some now } := by
  have hputs := ManagementDb.puts_saveFields hfound fun row =>
    { row with approvedBy := actor.id, approvedAt := some now }
  exact ⟨_, _, seq_eq_ok.mpr ⟨permit_eq_ok_iff.mpr hmay, seq_eq_ok.mpr
    ⟨permitNotAuthor_eq_ok_iff.mpr hauthor, rfl⟩⟩, ⟨hputs.rules, hputs.versions, hputs.lists⟩⟩

theorem moveToShadow_writes (hfound : db.rules.find? loaded.id = some current)
    (hmay : may actor.role .shadow) : ∃ db' rule, moveToShadow db loaded actor = .ok (db', rule) ∧
      db.Puts db' { current with state := .shadow } := by
  have hputs := ManagementDb.puts_saveFields hfound fun row => { row with state := .shadow }
  exact ⟨_, _, seq_eq_ok.mpr ⟨permit_eq_ok_iff.mpr hmay, rfl⟩,
    ⟨hputs.rules, hputs.versions, hputs.lists⟩⟩

/-- Saving some columns of the row as it is, and publishing. -/
theorem saveFields_publishVersion (hfound : db.rules.find? loaded.id = some current)
    (htenant : current.tenantId = loaded.tenantId) (actor : Actor) (f : Rule → Rule)
    (hf : (f current).tenantId = current.tenantId) : ∃ db₁ version,
      publishVersion (db.saveFields loaded.id f) loaded.tenantId actor = .ok (db₁, version) ∧
      db.PutsAndPublishes db₁ (f current) actor.id := by
  obtain ⟨⟨db₁, version⟩, hpublish⟩ :=
    publishVersion_ok (db.saveFields loaded.id f) loaded.tenantId actor
  have hid : current.id = loaded.id := (Table.find?_eq_some_iff.mp hfound).2
  refine ⟨db₁, version, hpublish, ?_⟩
  rw [← hid] at hfound hpublish
  exact saveFields_publishVersion_eq_ok hfound f (hf.trans htenant) hpublish

theorem activate_writes {emergencyReason : Value} (now : Int)
    (hfound : db.rules.find? loaded.id = some current)
    (htenant : current.tenantId = loaded.tenantId) (hmay : may actor.role .activate)
    (happroved : requireApproved loaded actor emergencyReason = .ok ()) : ∃ db' rule,
      activate db loaded actor emergencyReason now = .ok (db', rule) ∧
      db.PutsAndPublishes db' { current with state := .active, activatedAt := some now }
        actor.id := by
  obtain ⟨db₁, version, hpublish, hputs⟩ := saveFields_publishVersion hfound htenant actor
    (fun row => { row with state := .active, activatedAt := some now }) rfl
  exact ⟨_, _, seq_eq_ok.mpr ⟨permit_eq_ok_iff.mpr hmay, seq_eq_ok.mpr ⟨happroved,
    bind_eq_ok.mpr ⟨_, hpublish, rfl⟩⟩⟩, ⟨hputs.rules, hputs.lists, hputs.versions⟩⟩

theorem archive_writes (reason : Value) (hfound : db.rules.find? loaded.id = some current)
    (htenant : current.tenantId = loaded.tenantId) (hmay : may actor.role .archive) : ∃ db' rule,
      archive db loaded actor reason = .ok (db', rule) ∧
      db.PutsAndPublishes db' { current with state := .archived } actor.id := by
  obtain ⟨db₁, version, hpublish, hputs⟩ := saveFields_publishVersion hfound htenant actor
    (fun row => { row with state := .archived }) rfl
  exact ⟨_, _, seq_eq_ok.mpr ⟨permit_eq_ok_iff.mpr hmay, bind_eq_ok.mpr ⟨_, hpublish, rfl⟩⟩,
    ⟨hputs.rules, hputs.lists, hputs.versions⟩⟩

end

/-- A request whose checks pass writes its row, unless it is an edit to a name and version that are
taken. -/
theorem write_of_passes (hfound : db.rules.find? loaded.id = some current)
    (htenant : current.tenantId = loaded.tenantId) (h : r.Passes py loaded) :
    r.Taken db loaded ∧ r.write py (.ok loaded) db = (db, false) ∨
      ¬ r.Taken db loaded ∧ r.Wrote db (r.row loaded current) (r.write py (.ok loaded) db) := by
  obtain ⟨tenantId, actor, ruleId, op⟩ := r
  obtain ⟨hcheck, hidle⟩ := h
  cases op with
  | editDraft patch =>
    obtain ⟨hmay, heditable, hvalid⟩ := editDraft_of_check rfl hcheck
    have hchange : (loaded.edit patch).content ≠ loaded.content := fun h => hidle ⟨patch, rfl, h⟩
    by_cases htaken : db.nameVersionTaken (loaded.edit patch)
    · refine .inl ⟨⟨patch, rfl, htaken⟩, write_of_operate_error (e := .integrityError) ?_⟩
      exact editDraft_of_taken hmay heditable hvalid hchange htaken
    · have hfree : db.nameVersionTaken (loaded.edit patch) = false := Bool.eq_false_iff.mpr htaken
      obtain ⟨db', hedit, hputs⟩ := editDraft_of_may hmay heditable hvalid hfree hchange
      refine .inr ⟨?_, ?_⟩
      · rintro ⟨patch', hop, htaken'⟩
        cases hop
        exact htaken htaken'
      · exact .of_operate ⟨_, hedit⟩ (.of_puts rfl hputs)
  | approve reason now =>
    refine .inr ⟨fun ⟨_, hop, _⟩ => (by cases hop), ?_⟩
    obtain ⟨hmay, hauthor⟩ := seq_eq_ok.mp hcheck
    obtain ⟨db', rule, happrove, hputs⟩ := approve_writes hfound (permit_eq_ok_iff.mp hmay)
      (permitNotAuthor_eq_ok_iff.mp hauthor)
    exact .of_operate ⟨_, happrove⟩ (.of_puts rfl hputs)
  | moveToShadow =>
    refine .inr ⟨fun ⟨_, hop, _⟩ => (by cases hop), ?_⟩
    obtain ⟨db', rule, hshadow, hputs⟩ := moveToShadow_writes hfound (permit_eq_ok_iff.mp hcheck)
    exact .of_operate ⟨_, hshadow⟩ (.of_puts rfl hputs)
  | activate emergencyReason now =>
    refine .inr ⟨fun ⟨_, hop, _⟩ => (by cases hop), ?_⟩
    obtain ⟨hmay, happroved⟩ := seq_eq_ok.mp hcheck
    obtain ⟨db', rule, hactivate, hputs⟩ := activate_writes now hfound htenant
      (permit_eq_ok_iff.mp hmay) happroved
    exact .of_operate ⟨_, hactivate⟩ (.of_putsAndPublishes rfl hputs)
  | archive reason =>
    refine .inr ⟨fun ⟨_, hop, _⟩ => (by cases hop), ?_⟩
    obtain ⟨db', rule, harchive, hputs⟩ := archive_writes reason hfound htenant
      (permit_eq_ok_iff.mp hcheck)
    exact .of_operate ⟨_, harchive⟩ (.of_putsAndPublishes rfl hputs)

/-! ## Databases that differ in nothing the operations write -/

/-- Two requests that write one row to databases that are the same leave them the same. -/
theorem Wrote.same {row : Rule} {db₁ db₂ : ManagementDb} {x y : ManagementDb × Bool}
    (hsame : db₁.Same db₂) (hx : r.Wrote db₁ row x) (hy : r.Wrote db₂ row y) :
    x.1.Same y.1 ∧ x.2 = y.2 := by
  have hversions := hx.versions
  have hversions' := hy.versions
  refine ⟨⟨?_, ?_, ?_⟩, hx.succeeds.trans hy.succeeds.symm⟩
  · rw [hx.rules, hy.rules, hsame.rules]
  · split at hversions
    · rw [if_pos ‹_›] at hversions'
      have hpublication : ({ db₂ with rules := db₂.rules.put row } : ManagementDb).publication
          row.tenantId r.actor.id =
          ({ db₁ with rules := db₁.rules.put row } : ManagementDb).publication row.tenantId
            r.actor.id := by
        simp only [ManagementDb.publication, ManagementDb.latestVersion,
          ManagementDb.publishedRules, ManagementDb.namedLists, hsame.rules, hsame.versions,
          hsame.lists]
      rw [hpublication, hsame.versions, hversions] at hversions'
      exact (Option.some.inj hversions').symm
    · rw [if_neg ‹_›] at hversions'
      rw [hversions, hversions', hsame.versions]
  · rw [hx.lists, hy.lists, hsame.lists]

theorem load_congr {db₁ db₂ : ManagementDb} (h : db₁.Same db₂) (r : RuleRequest) :
    r.load db₂ = r.load db₁ := by
  rw [load, load, ManagementDb.load, ManagementDb.load, ManagementDb.rule?, ManagementDb.rule?,
    h.rules]

theorem taken_congr {db₁ db₂ : ManagementDb} (h : db₁.Same db₂) :
    r.Taken db₂ loaded ↔ r.Taken db₁ loaded := by
  simp only [Taken, ManagementDb.nameVersionTaken, h.rules]

/-- What a request that loads and writes at once does depends on the rules, the versions and the
lists alone. -/
theorem serve_congr (py : Python) (r : RuleRequest) {db₁ db₂ : ManagementDb} (h : db₁.Same db₂) :
    (r.write py (r.load db₁) db₁).1.Same (r.write py (r.load db₂) db₂).1 ∧
      (r.write py (r.load db₁) db₁).2 = (r.write py (r.load db₂) db₂).2 := by
  rw [load_congr h]
  cases hload : r.load db₁ with
  | error e => exact ⟨h, rfl⟩
  | ok loaded =>
    by_cases hpasses : r.Passes py loaded
    · obtain ⟨hfound, -, -⟩ := load_found hload
      have hfound' : db₂.rules.find? loaded.id = some loaded := h.rules ▸ hfound
      rcases write_of_passes hfound rfl hpasses with ⟨htaken, hx⟩ | ⟨hfree, hx⟩
      · rcases write_of_passes hfound' rfl hpasses with ⟨-, hy⟩ | ⟨hfree, -⟩
        · rw [hx, hy]
          exact ⟨h, rfl⟩
        · exact absurd ((taken_congr h).mpr htaken) hfree
      · rcases write_of_passes hfound' rfl hpasses with ⟨htaken, -⟩ | ⟨-, hy⟩
        · exact absurd ((taken_congr h).mp htaken) hfree
        · exact Wrote.same h hx hy
    · obtain ⟨o, ho⟩ := write_of_not_passes hpasses
      rw [ho, ho]
      exact ⟨h, rfl⟩

end

/-- Requests of which each loads in one step and writes in a later one. -/
def requests {ι : Type} (py : Python) (rs : ι → RuleRequest) :
    Requests ι ManagementDb (Except Refusal Rule) Bool where
  read i db := (rs i).load db
  write i loaded db := (rs i).write py loaded db
  Same := ManagementDb.Same
  same := ManagementDb.Same.equivalence
  serve_congr i _ _ h := serve_congr py (rs i) h

end RuleRequest

end ComplyLayer
