import ComplyLayer.Rules.Concurrency
import ComplyLayer.Verify.Authority

/-!
# Requests on a rule, interleaved

`edit_draft` writes back every column of the row it loaded, `activate` relies on the approval it
loaded and `approve` on the content. Where what a request relies on is still so when it writes, its
write is that of a request that loads just then, and the run is a sequential one.
-/

namespace ComplyLayer

open Theory

/-- The row with what an edit leaves of its approval. -/
def Rule.unapproved (row : Rule) : Rule :=
  { row with
    approvedBy := ""
    approvedAt := if row.approvedBy = "" then row.approvedAt else none }

/-- What the request relies on of the row it loaded is so of the row as it is: for an edit all of
it but the approval (or the edit is there already), for an approval the content, and for an
activation that it is approved. -/
def RuleRequest.Current (r : RuleRequest) (loaded current : Rule) : Prop :=
  match r.op with
  | .editDraft patch => current.unapproved = loaded.unapproved ∨ current = loaded.edit patch
  | .approve _ _ => current.content = loaded.content
  | .activate emergencyReason _ =>
    current.approvedBy ≠ "" ∨ emergencyReason.truthy ∧ may r.actor.role .emergencyOverride
  | .moveToShadow | .archive _ => True

/-- The unique constraint on the rules: no two have the same tenant, name and version. -/
def ManagementDb.NamesFree (db : ManagementDb) : Prop :=
  ∀ row ∈ db.rules.rows, ∀ row' ∈ db.rules.rows, row.nameVersion = row'.nameVersion →
    row.id = row'.id

/-- The columns that no operation on a loaded row writes. -/
structure Rule.Kin (row row' : Rule) : Prop where
  id : row.id = row'.id
  tenantId : row.tenantId = row'.tenantId
  createdBy : row.createdBy = row'.createdBy

theorem Rule.Kin.trans {row row' row'' : Rule} (h : row.Kin row') (h' : row'.Kin row'') :
    row.Kin row'' :=
  ⟨h.id.trans h'.id, h.tenantId.trans h'.tenantId, h.createdBy.trans h'.createdBy⟩

section
variable {ι : Type} [DecidableEq ι] (py : Python) (rs : ι → RuleRequest)

/-- A session of requests on the database. -/
abbrev RuleSession (ι : Type) := Session ι ManagementDb (Except Refusal Rule) Bool

/-- A request that writes does so with what it relies on as it loaded it. -/
def WritesCurrent (s : RuleSession ι) : Phase ι → Prop
  | .read _ => True
  | .write i => ∀ loaded current, s.read i = some (.ok loaded) →
      s.store.rules.find? loaded.id = some current → (rs i).Passes py loaded →
      (rs i).Current loaded current

/-- An approval goes on the content that its request loaded. -/
def ApprovesLoaded (s : RuleSession ι) : Phase ι → Prop
  | .read _ => True
  | .write i => ∀ reason now loaded current, (rs i).op = .approve reason now →
      s.read i = some (.ok loaded) → s.store.rules.find? loaded.id = some current →
      (rs i).Passes py loaded → current.content = loaded.content

/-- An edit leaves the state as it is, and the approval as it is or reset. -/
def EditRestoresNothing (s : RuleSession ι) : Phase ι → Prop
  | .read _ => True
  | .write i => ∀ patch t current row, (rs i).op = .editDraft patch →
      (RuleRequest.requests py rs).step s (.write i) = some t →
      s.store.rules.find? (rs i).ruleId = some current →
      t.store.rules.find? (rs i).ruleId = some row →
      row.state = current.state ∧ (row = current ∨ row.approvedBy = "")

/-- The rules and versions, and which requests succeed, are those of some order, and no write puts
an approval on other content or restores what an edit loaded. -/
structure RunsAsOrdered (db : ManagementDb) (schedule : List (Phase ι))
    (final : RuleSession ι) : Prop where
  order : ∃ order : List ι, order.Nodup ∧ (∀ i, i ∈ order ↔ (final.read i).isSome) ∧
    ((RuleRequest.requests py rs).serial db order).1.rules = final.store.rules ∧
    ((RuleRequest.requests py rs).serial db order).1.versions = final.store.versions ∧
    ∀ i o, (i, o) ∈ ((RuleRequest.requests py rs).serial db order).2 ↔ final.outcome i = some o
  approves : Along (RuleRequest.requests py rs).step (ApprovesLoaded py rs) { store := db } schedule
  edits : Along (RuleRequest.requests py rs).step (EditRestoresNothing py rs) { store := db }
    schedule

end

section
variable {py : Python} {r : RuleRequest} {db : ManagementDb} {loaded current row : Rule}

/-! ## Stale rows -/

theorem Rule.edit_unapproved (row : Rule) (patch : RulePatch) :
    row.unapproved.edit patch = row.edit patch := by
  unfold edit unapproved
  simp

/-- Making an edit a second time changes nothing. -/
theorem RulePatch.apply_apply (patch : RulePatch) (content : RuleContent) :
    patch.apply (patch.apply content) = patch.apply content := by
  have hgetD {α : Type} (o : Option α) (a : α) : o.getD (o.getD a) = o.getD a := by
    cases o <;> rfl
  simp only [RulePatch.apply, hgetD]

theorem ManagementDb.NamesFree.nameVersionTaken (hnames : db.NamesFree)
    (hfound : db.rules.find? row.id = some row) : db.nameVersionTaken row = false := by
  have hrow := (Table.find?_eq_some_iff.mp hfound).1
  unfold ManagementDb.nameVersionTaken
  rw [List.any_eq_false]
  intro row' hrow'
  simp only [decide_eq_true_eq, not_and]
  exact fun hid hname => hid (hnames row' hrow' row hrow hname)

theorem Rule.Kin.check (hkin : current.Kin loaded) (hop : ∀ patch, r.op ≠ .editDraft patch)
    (hcheck : r.check py loaded = .ok ()) (hcurrent : r.Current loaded current) :
    r.check py current = .ok () := by
  obtain ⟨tenantId, actor, ruleId, op⟩ := r
  cases op with
  | editDraft patch => exact absurd rfl (hop patch)
  | approve reason now =>
    obtain ⟨hmay, hauthor⟩ := seq_eq_ok.mp hcheck
    exact seq_eq_ok.mpr ⟨hmay, hkin.createdBy ▸ hauthor⟩
  | moveToShadow => exact hcheck
  | activate emergencyReason now =>
    obtain ⟨hmay, -⟩ := seq_eq_ok.mp hcheck
    exact seq_eq_ok.mpr ⟨hmay, requireApproved_eq_ok_iff.mpr hcurrent⟩
  | archive reason => exact hcheck

/-- A request that passes on the row it loaded passes on a current one, and writes the same row of
it, but for an edit that is there already. -/
theorem passes_of_current (hkin : current.Kin loaded) (hpasses : r.Passes py loaded)
    (hcurrent : r.Current loaded current) :
    r.Passes py current ∧ r.row current current = r.row loaded current ∧
        (r.Taken db current ↔ r.Taken db loaded) ∨
      ∃ patch, r.op = .editDraft patch ∧ current = loaded.edit patch := by
  by_cases hedits : ∃ patch, r.op = .editDraft patch
  · obtain ⟨patch, hop⟩ := hedits
    have hcurrent : current.unapproved = loaded.unapproved ∨ current = loaded.edit patch := by
      rw [RuleRequest.Current, hop] at hcurrent
      exact hcurrent
    rcases hcurrent with hsame | hthere
    · left
      have hedit (patch : RulePatch) : current.edit patch = loaded.edit patch := by
        rw [← current.edit_unapproved, hsame, loaded.edit_unapproved]
      have hcontent : current.content = loaded.content :=
        (congrArg Rule.content hsame : current.unapproved.content = _)
      refine ⟨⟨?_, ?_⟩, ?_, ?_⟩
      · have hcheck := hpasses.1
        rw [RuleRequest.check, hop] at hcheck ⊢
        have hstate : current.state = loaded.state :=
          (congrArg Rule.state hsame : current.unapproved.state = _)
        dsimp only [requireEditable] at hcheck ⊢
        rw [hstate]
        exact hcheck
      · rintro ⟨patch', hop', happly⟩
        exact hpasses.2 ⟨patch', hop', by rw [← hcontent, happly]⟩
      · rw [RuleRequest.row, RuleRequest.row, hop]
        exact hedit patch
      · unfold RuleRequest.Taken
        simp only [hedit]
    · exact .inr ⟨patch, hop, hthere⟩
  · left
    have hop (patch : RulePatch) : r.op ≠ .editDraft patch := fun hop => hedits ⟨patch, hop⟩
    refine ⟨⟨hkin.check hop hpasses.1 hcurrent, fun ⟨patch, h, _⟩ => hop patch h⟩, ?_,
      ⟨fun ⟨patch, h, _⟩ => absurd h (hop patch), fun ⟨patch, h, _⟩ => absurd h (hop patch)⟩⟩
    unfold RuleRequest.row
    split
    · rename_i h
      exact absurd h (hop _)
    all_goals rfl

/-- A request that relies on nothing that has changed writes what it would write of the row as it
is. -/
theorem write_of_current (hnames : db.NamesFree) (hfound : db.rules.find? loaded.id = some current)
    (hkin : current.Kin loaded) (hpasses : r.Passes py loaded)
    (hcurrent : r.Current loaded current) :
    (r.write py (.ok loaded) db).1.Same (r.write py (.ok current) db).1 ∧
      (r.write py (.ok loaded) db).2 = (r.write py (.ok current) db).2 := by
  have hsame := ManagementDb.Same.equivalence.refl db
  have hfound' : db.rules.find? current.id = some current := hkin.id ▸ hfound
  have hwrite := RuleRequest.write_of_passes hfound hkin.tenantId hpasses
  rcases passes_of_current hkin hpasses hcurrent with
    ⟨hpasses', hrow, htaken⟩ | ⟨patch, hop, hthere⟩
  · rcases hwrite with ⟨htaken', hx⟩ | ⟨hfree, hx⟩
    · rcases RuleRequest.write_of_passes hfound' rfl hpasses' with ⟨-, hy⟩ | ⟨hfree, -⟩
      · rw [hx, hy]
        exact ⟨hsame, rfl⟩
      · exact absurd (htaken.mpr htaken') hfree
    · rcases RuleRequest.write_of_passes hfound' rfl hpasses' with ⟨htaken', -⟩ | ⟨-, hy⟩
      · exact absurd (htaken.mp htaken') hfree
      · rw [hrow] at hy
        exact hx.same hsame hy
  · -- The edit is there: writing it again changes nothing, and neither does making it again.
    have hfree : ¬ r.Taken db loaded := by
      rintro ⟨patch', hop', htaken⟩
      cases hop.symm.trans hop'
      rw [← hthere, hnames.nameVersionTaken hfound'] at htaken
      cases htaken
    obtain ⟨-, hwrote⟩ := hwrite.resolve_left fun h => hfree h.1
    have hrow : r.row loaded current = current := by
      rw [RuleRequest.row, hop]
      exact hthere.symm
    have hidle : r.write py (.ok current) db = (db, true) := by
      refine RuleRequest.write_of_idle ?_ ⟨patch, hop, ?_⟩
      · obtain ⟨hmay, heditable, hvalid⟩ := RuleRequest.editDraft_of_check hop hpasses.1
        rw [RuleRequest.check, hop]
        refine seq_eq_ok.mpr ⟨permit_eq_ok_iff.mpr hmay, seq_eq_ok.mpr
          ⟨requireEditable_eq_ok_iff.mpr ?_, hvalid⟩⟩
        rw [hthere]
        exact heditable
      · rw [hthere]
        exact patch.apply_apply loaded.content
    rw [hidle]
    refine ⟨⟨?_, ?_, hwrote.lists.symm⟩, hwrote.succeeds⟩
    · rw [hwrote.rules, hrow, Table.put_eq_self hfound']
    · have hversions := hwrote.versions
      rw [if_neg (by simp [RuleRequest.publishes, hop])] at hversions
      exact hversions.symm

/-! ## The rows of a session -/

theorem ManagementDb.NamesFree.put (hnames : db.NamesFree)
    (hfound : db.rules.find? row.id = some current)
    (hname : row.nameVersion = current.nameVersion ∨ db.nameVersionTaken row = false)
    {db' : ManagementDb} (hrules : db'.rules = db.rules.put row) : db'.NamesFree := by
  have hcurrent := (Table.find?_eq_some_iff.mp hfound).1
  have hid := (Table.find?_eq_some_iff.mp hfound).2
  -- No other row has the name and version of the new one.
  have hother (old : Rule) (hold : old ∈ db.rules.rows) (hne : old.id ≠ row.id) :
      old.nameVersion ≠ row.nameVersion := by
    intro heq
    rcases hname with hname | hfree
    · exact hne ((hnames old hold current hcurrent (heq.trans hname)).trans hid)
    · unfold ManagementDb.nameVersionTaken at hfree
      rw [List.any_eq_false] at hfree
      exact hfree old hold (by simpa using ⟨hne, heq⟩)
  intro a ha b hb hab
  rw [hrules] at ha hb
  rcases Table.mem_rows_put.mp ha with ⟨hnew, -⟩ | ⟨hold, hne⟩
  · rcases Table.mem_rows_put.mp hb with ⟨hnew', -⟩ | ⟨hold', hne'⟩
    · rw [hnew, hnew']
    · exact absurd (hab.symm.trans (congrArg _ hnew)) (hother b hold' hne')
  · rcases Table.mem_rows_put.mp hb with ⟨hnew', -⟩ | ⟨hold', -⟩
    · exact absurd (hab.trans (congrArg _ hnew')) (hother a hold hne)
    · exact hnames a hold b hold' hab

/-- A write changes no rule, or one, and leaves it its kin. -/
theorem write_rules (py : Python) (hfound : db.rules.find? loaded.id = some current)
    (hkin : current.Kin loaded) : (r.write py (.ok loaded) db).1.rules = db.rules ∨
      ∃ row, (r.write py (.ok loaded) db).1.rules = db.rules.put row ∧ row.Kin current ∧
        (row.nameVersion = current.nameVersion ∨ db.nameVersionTaken row = false) := by
  by_cases hpasses : r.Passes py loaded
  · rcases RuleRequest.write_of_passes hfound hkin.tenantId hpasses with ⟨-, hx⟩ | ⟨hfree, hx⟩
    · rw [hx]
      exact .inl rfl
    · refine .inr ⟨r.row loaded current, hx.rules, ?_⟩
      unfold RuleRequest.row
      split
      · rename_i patch hop
        refine ⟨⟨hkin.id.symm, hkin.tenantId.symm, hkin.createdBy.symm⟩, .inr ?_⟩
        exact Bool.eq_false_iff.mpr fun htaken => hfree ⟨patch, hop, htaken⟩
      all_goals exact ⟨⟨rfl, rfl, rfl⟩, .inl rfl⟩
  · obtain ⟨o, ho⟩ := RuleRequest.write_of_not_passes hpasses
    rw [ho]
    exact .inl rfl

variable {ι : Type} {rs : ι → RuleRequest} {s t : RuleSession ι}

/-- Names are free, and each loaded row has its kin in the database. -/
structure HoldsKin (rs : ι → RuleRequest) (s : RuleSession ι) : Prop where
  names : s.store.NamesFree
  kin : ∀ i loaded, s.read i = some (.ok loaded) → loaded.id = (rs i).ruleId ∧
    loaded.tenantId = (rs i).tenantId ∧
    ∃ current, s.store.rules.find? loaded.id = some current ∧ current.Kin loaded

/-- The write of a request that relies on nothing that has changed is settled or fresh. -/
theorem sound_of_current (h : HoldsKin rs s) (hcurrent : WritesCurrent py rs s phase) :
    (RuleRequest.requests py rs).Sound s phase := by
  have hrefl := ManagementDb.Same.equivalence.refl
  cases phase with
  | read i => trivial
  | write i =>
    intro r hread
    cases r with
    | error e => exact .inl ⟨false, fun db => ⟨hrefl db, rfl⟩⟩
    | ok loaded =>
      by_cases hpasses : (rs i).Passes py loaded
      · right
        obtain ⟨hid, htenant, current, hfound, hkin⟩ := h.kin i loaded hread
        have hload : (rs i).load s.store = .ok current := by
          refine ManagementDb.load_eq_ok_iff.mpr ⟨?_, hkin.tenantId.trans htenant⟩
          rw [← hid]
          exact hfound
        have hwrite := write_of_current h.names hfound hkin hpasses
          (hcurrent loaded current hread hfound hpasses)
        rw [← hload] at hwrite
        exact hwrite
      · obtain ⟨o, ho⟩ := RuleRequest.write_of_not_passes hpasses
        have hsettled (db : ManagementDb) : ((rs i).write py (.ok loaded) db).1.Same db ∧
            ((rs i).write py (.ok loaded) db).2 = o := by
          rw [ho]
          exact ⟨hrefl db, rfl⟩
        exact .inl ⟨o, hsettled⟩

theorem approvesLoaded_of_current (hcurrent : WritesCurrent py rs s phase) :
    ApprovesLoaded py rs s phase := by
  cases phase with
  | read i => trivial
  | write i =>
    intro reason now loaded current hop hread hfound hpasses
    have hcontent := hcurrent loaded current hread hfound hpasses
    rw [RuleRequest.Current, hop] at hcontent
    exact hcontent

variable [DecidableEq ι]

theorem HoldsKin.step (h : HoldsKin rs s)
    (hstep : (RuleRequest.requests py rs).step s phase = some t) : HoldsKin rs t := by
  cases phase with
  | read i =>
    obtain ⟨-, hstore, hread, -, hothers⟩ := Requests.step_read hstep
    refine ⟨hstore ▸ h.names, fun j loaded hj => ?_⟩
    rw [hstore]
    by_cases hji : j = i
    · subst hji
      have hload : (rs j).load s.store = .ok loaded := Option.some.inj (hread.symm.trans hj)
      obtain ⟨hfound, hid, htenant⟩ := load_found hload
      exact ⟨hid, htenant, loaded, hfound, ⟨rfl, rfl, rfl⟩⟩
    · exact h.kin j loaded (hothers j hji ▸ hj)
  | write i =>
    obtain ⟨r, hread, -, hstore, hreads, -, -⟩ := Requests.step_write hstep
    cases r with
    | error e =>
      have hstore : t.store = s.store := hstore
      exact ⟨hstore ▸ h.names, fun j loaded hj => hstore ▸ h.kin j loaded (hreads ▸ hj)⟩
    | ok loaded =>
      obtain ⟨-, -, current, hfound, hkin⟩ := h.kin i loaded hread
      have hwrite := write_rules py (r := rs i) hfound hkin
      have hrules : t.store.rules = ((rs i).write py (.ok loaded) s.store).1.rules :=
        congrArg ManagementDb.rules hstore
      rw [← hrules] at hwrite
      rcases hwrite with hsame | ⟨row, hput, hrow, hname⟩
      · refine ⟨fun a ha b hb => ?_, fun j other hj => ?_⟩
        · rw [hsame] at ha hb
          exact h.names a ha b hb
        · rw [hsame]
          exact h.kin j other (hreads ▸ hj)
      · have hfound' : s.store.rules.find? row.id = some current := hrow.id ▸ hkin.id ▸ hfound
        refine ⟨h.names.put hfound' hname hput, fun j other hj => ?_⟩
        obtain ⟨hid, htenant, old, hold, holdKin⟩ := h.kin j other (hreads ▸ hj)
        refine ⟨hid, htenant, ?_⟩
        rw [hput, Table.find?_put_of_found hfound']
        split
        · rename_i heq
          rw [heq, hfound'] at hold
          cases hold
          exact ⟨row, rfl, hrow.trans holdKin⟩
        · exact ⟨old, hold, holdKin⟩

theorem editRestoresNothing_of_current (h : HoldsKin rs s)
    (hcurrent : WritesCurrent py rs s phase) : EditRestoresNothing py rs s phase := by
  cases phase with
  | read i => trivial
  | write i =>
    intro patch t current row hop hstep hcurrentRow hrow
    obtain ⟨r, hread, -, hstore, -⟩ := Requests.step_write hstep
    have hsame (hrules : t.store.rules = s.store.rules) :
        row.state = current.state ∧ (row = current ∨ row.approvedBy = "") := by
      rw [hrules, hcurrentRow] at hrow
      cases hrow
      exact ⟨rfl, .inl rfl⟩
    have hrules : t.store.rules = ((rs i).write py r s.store).1.rules :=
      congrArg ManagementDb.rules hstore
    cases r with
    | error e => exact hsame hrules
    | ok loaded =>
      obtain ⟨hid, -, found, hfound, hkin⟩ := h.kin i loaded hread
      rw [hid, hcurrentRow] at hfound
      cases hfound
      have hfound : s.store.rules.find? loaded.id = some current := hid ▸ hcurrentRow
      by_cases hpasses : (rs i).Passes py loaded
      · rcases RuleRequest.write_of_passes hfound hkin.tenantId hpasses with ⟨-, hx⟩ | ⟨-, hx⟩
        · exact hsame (hrules.trans (congrArg (fun x => x.1.rules) hx))
        · rw [RuleRequest.row, hop] at hx
          have hedited : s.store.rules.find? (loaded.edit patch).id = some current := hfound
          have hedits : (rs i).ruleId = (loaded.edit patch).id := hid.symm
          rw [hrules, hx.rules, Table.find?_put_of_found hedited, if_pos hedits] at hrow
          cases hrow
          refine ⟨?_, .inr rfl⟩
          have hwrites := hcurrent loaded current hread hfound hpasses
          rw [RuleRequest.Current, hop] at hwrites
          rcases hwrites with hunapproved | hthere
          · exact (congrArg Rule.state hunapproved.symm : loaded.unapproved.state = _)
          · rw [hthere]
      · obtain ⟨o, ho⟩ := RuleRequest.write_of_not_passes hpasses
        exact hsame (hrules.trans (congrArg ManagementDb.rules (congrArg Prod.fst (ho s.store))))

/-! ## Runs -/

/-- **Requests on a rule, in any interleaving.** Where every write is of a request that relies on
nothing that has changed since it loaded, the run is that of some order of the requests. -/
theorem runs_as_ordered (hnames : db.NamesFree) {schedule : List (Phase ι)}
    (hrun : run (RuleRequest.requests py rs).step { store := db } schedule = some s)
    (hended : ∀ i, (s.read i).isSome → (s.outcome i).isSome)
    (hcurrent : Along (RuleRequest.requests py rs).step (WritesCurrent py rs) { store := db }
      schedule) : RunsAsOrdered py rs db schedule s := by
  have hstart : HoldsKin rs { store := db } := ⟨hnames, fun i loaded h => (by cases h)⟩
  have hstep (s : RuleSession ι) (phase : Phase ι) (t : RuleSession ι) (h : HoldsKin rs s)
      (hstep : (RuleRequest.requests py rs).step s phase = some t) : HoldsKin rs t := h.step hstep
  have hsound := hcurrent.imp_of (H := (RuleRequest.requests py rs).Sound)
    (fun _ _ h => sound_of_current h) hstep hstart
  obtain ⟨order, hnodup, hmem, hsame, houtcomes⟩ := Requests.serialisable hsound hrun hended
  refine ⟨⟨order, hnodup, hmem, hsame.rules.symm, hsame.versions.symm, houtcomes⟩, ?_, ?_⟩
  · exact hcurrent.imp fun _ _ h => approvesLoaded_of_current h
  · exact hcurrent.imp_of (fun _ _ h => editRestoresNothing_of_current h) hstep hstart

end

def draftRow : Rule where
  id := "rul_1"
  tenantId := "tnt_1"
  content :=
    { name := "Limit", category := "kyc", expression := "amount_minor > 50", severity := "block" }
  createdBy := "usr_analyst"

def draftDb : ManagementDb := { rules := ⟨[draftRow], List.nodup_singleton _⟩ }

/-- An analyst's edit of a rule, and what an officer does with it. -/
def editAnd (op : RuleOp) : Bool → RuleRequest
  | true => ⟨"tnt_1", ruleAnalyst, "rul_1", .editDraft { name := some "Cap" }⟩
  | false => ⟨"tnt_1", ruleOfficer, "rul_1", op⟩

theorem runs_as_ordered_edit_shadow : ∃ final,
    RunsAsOrdered rulePython (editAnd .moveToShadow) draftDb
      [.read true, .read false, .write true, .write false] final := by
  refine ⟨_, runs_as_ordered ?_ rfl ?_ ?_⟩
  · intro row hrow row' hrow' _
    rw [List.mem_singleton.mp hrow, List.mem_singleton.mp hrow']
  · intro i _
    cases i <;> rfl
  · refine ⟨trivial, fun t ht => ?_⟩
    cases ht
    refine ⟨trivial, fun t ht => ?_⟩
    cases ht
    refine ⟨fun loaded current hloaded hcurrent _ => ?_, fun t ht => ?_⟩
    · cases hloaded
      cases hcurrent
      exact .inl rfl
    · cases ht
      exact ⟨fun _ _ _ _ _ => trivial, fun _ _ => trivial⟩

/-- The rule is archived between the load and the write of the edit. -/
theorem edit_restores_draft : ∃ final,
    run (RuleRequest.requests rulePython (editAnd (.archive (.str "")))).step { store := draftDb }
      [.read true, .read false, .write false, .write true] = some final ∧
    (∀ i, (final.outcome i).isSome) ∧
    ¬ RunsAsOrdered rulePython (editAnd (.archive (.str ""))) draftDb
      [.read true, .read false, .write false, .write true] final := by
  refine ⟨_, rfl, fun i => (by cases i <;> rfl), fun h => ?_⟩
  obtain ⟨order, hnodup, hmem, hrules, -⟩ := h.order
  have hstate := congrArg (fun rules => (rules.find? "rul_1").map (·.state)) hrules
  have htrue : true ∈ order := (hmem true).mpr rfl
  have hfalse : false ∈ order := (hmem false).mpr rfl
  rcases order with _ | ⟨a, _ | ⟨b, _ | ⟨c, rest⟩⟩⟩
  · cases htrue
  · cases (List.mem_singleton.mp htrue).trans (List.mem_singleton.mp hfalse).symm
  · -- Archived is what either order leaves it, and the interleaving a draft.
    cases a <;> cases b
    · simp at hnodup
    · cases hstate
    · cases hstate
    · simp at hnodup
  · cases a <;> cases b <;> cases c <;> simp at hnodup

end ComplyLayer
