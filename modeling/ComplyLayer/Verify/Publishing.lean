import ComplyLayer.Rules.Publishing
import Mathlib.Data.List.Range

/-!
# No publication is lost

The number a publication reads is a lock it takes without holding it: the version of the next
number goes in only if nothing was committed since the number was read, and so since the rules
were. What goes in is then what the committed rules will be.
-/

namespace ComplyLayer

open Theory

/-- The tenant's versions have the numbers from one on, each once. -/
def ManagementDb.Numbered (db : ManagementDb) (tenantId : String) : Prop :=
  ((db.versions.rows.filter (·.tenantId = tenantId)).map (·.version)).Perm
    (List.range' 1 (db.latestVersion tenantId))

section
variable {db db' : ManagementDb} {version : RuleSetVersion}

theorem ManagementDb.Numbered.isSome_find?_iff (h : db.Numbered tenantId) :
    (db.versions.find? (tenantId, k)).isSome ↔ 1 ≤ k ∧ k ≤ db.latestVersion tenantId := by
  have hmem : k ∈ (db.versions.rows.filter (·.tenantId = tenantId)).map (·.version) ↔
      1 ≤ k ∧ k < 1 + db.latestVersion tenantId := by
    rw [h.mem_iff, List.mem_range'_1]
  have hfind : (db.versions.find? (tenantId, k)).isSome ↔
      k ∈ (db.versions.rows.filter (·.tenantId = tenantId)).map (·.version) := by
    rw [Option.isSome_iff_exists, List.mem_map]
    refine exists_congr fun row => ?_
    rw [Table.find?_eq_some_iff, List.mem_filter, decide_eq_true_iff]
    constructor
    · rintro ⟨hrow, hkey⟩
      exact ⟨⟨hrow, congrArg Prod.fst hkey⟩, congrArg Prod.snd hkey⟩
    · rintro ⟨⟨hrow, htenant⟩, hnumber⟩
      exact ⟨hrow, Prod.ext htenant hnumber⟩
  rw [hfind, hmem]
  omega

/-- The next version keeps the numbering. -/
theorem ManagementDb.Numbered.insert (h : db.Numbered tenantId)
    (hinsert : db.versions.insert? version = some db'.versions) (htenant : version.tenantId = tenantId)
    (hnumber : version.version = db.latestVersion tenantId + 1) :
    db'.Numbered tenantId ∧ db'.latestVersion tenantId = db.latestVersion tenantId + 1 := by
  have hlatest : db'.latestVersion tenantId = db.latestVersion tenantId + 1 := by
    rw [latestVersion_insert hinsert, if_pos htenant, hnumber]
    omega
  refine ⟨?_, hlatest⟩
  rw [Numbered, hlatest, List.range'_1_concat, (Table.insert?_eq_some_iff.mp hinsert).2,
    List.filter_append, List.map_append, List.filter_cons_of_pos (by simpa using htenant)]
  have hlast : 1 + db.latestVersion tenantId = version.version := by omega
  rw [hlast]
  exact h.append_right [version.version]

end

namespace Publishing

variable {ι : Type}

/-- What a publication knows of what is committed. -/
def Knows (tenantId : String) (s : Publishing ι) (i : ι) : Stage → Prop
  | .idle | .updated _ | .aborted => True
  -- The next number is the one that was next when it was read.
  | .numbered _ next => 0 < next ∧ next ≤ s.db.latestVersion tenantId + 1
  -- The rules are those there are, if the number is still the next.
  | .read row next snapshot => 0 < next ∧ next ≤ s.db.latestVersion tenantId + 1 ∧
    (next = s.db.latestVersion tenantId + 1 → snapshot = s.db.snapshotsWith tenantId row)
  -- The version that comes next, and no other is inserted.
  | .inserted row version => version.tenantId = tenantId ∧
    version.version = s.db.latestVersion tenantId + 1 ∧
    version.rulesSnapshot = s.db.snapshotsWith tenantId row ∧ s.inserter version.version = some i
  | .committed version => s.db.versions.find? (tenantId, version.version) = some version ∧
    ∃ newest, s.db.loadPublished tenantId = some newest ∧
      newest.rulesSnapshot = s.db.publishedSnapshots tenantId

structure Consistent (tenantId : String) (s : Publishing ι) : Prop where
  numbered : s.db.Numbered tenantId
  knows : ∀ i, s.Knows tenantId i (s.stage i)

variable {tenantId : String} {s t : Publishing ι} {i : ι}

/-- What is known stays known while nothing is committed. -/
theorem Knows.keep {stage : Stage} (h : s.Knows tenantId i stage) (hdb : t.db = s.db)
    (hinserter : ∀ number, s.inserter number = some i → t.inserter number = some i) :
    t.Knows tenantId i stage := by
  cases stage with
  | idle | updated _ | aborted => trivial
  | numbered row next =>
    rw [Knows, hdb]
    exact h
  | read row next snapshot =>
    rw [Knows, hdb]
    exact h
  | inserted row version =>
    rw [Knows, hdb]
    obtain ⟨htenant, hnumber, hsnapshot, hfirst⟩ := h
    exact ⟨htenant, hnumber, hsnapshot, hinserter _ hfirst⟩
  | committed version =>
    rw [Knows, hdb]
    exact h

/-- A commit leaves the others behind: their number is no longer the next. -/
theorem Knows.commit {stage : Stage} {version : RuleSetVersion} (h : s.Knows tenantId i stage)
    (hnumbered : s.db.Numbered tenantId) (hfirst : s.inserter version.version ≠ some i)
    (htenant : version.tenantId = tenantId)
    (hnumber : version.version = s.db.latestVersion tenantId + 1)
    (hinsert : s.db.versions.insert? version = some t.db.versions)
    (hnewest : ∃ newest, t.db.loadPublished tenantId = some newest ∧
      newest.rulesSnapshot = t.db.publishedSnapshots tenantId) :
    t.Knows tenantId i stage := by
  have hlatest := (hnumbered.insert hinsert htenant hnumber).2
  cases stage with
  | idle | updated _ | aborted => trivial
  | numbered row next =>
    obtain ⟨hpos, hle⟩ := h
    exact ⟨hpos, by omega⟩
  | read row next snapshot =>
    obtain ⟨hpos, hle, -⟩ := h
    exact ⟨hpos, by omega, fun hnext => by omega⟩
  | inserted row other =>
    obtain ⟨-, hother, -, hown⟩ := h
    rw [hother, ← hnumber] at hown
    exact absurd hown hfirst
  | committed other =>
    refine ⟨?_, hnewest⟩
    have hother : (s.db.versions.find? (tenantId, other.version)).isSome := by
      rw [h.1]
      rfl
    have hle := (hnumbered.isSome_find?_iff.mp hother).2
    rw [Table.find?_insert? hinsert, if_neg]
    · exact h.1
    · intro hkey
      have hnumbers : version.version = other.version := congrArg Prod.snd hkey
      omega

variable [DecidableEq ι]

theorem stage_advance (s : Publishing ι) (i : ι) (stage : Stage) (j : ι) :
    (s.advance i stage).stage j = if j = i then stage else s.stage j :=
  Function.update_apply ..

/-- A step of one publication that commits nothing. -/
theorem Consistent.step (h : s.Consistent tenantId) (hdb : t.db = s.db) {stage : Stage}
    (hstage : t.stage = (s.advance i stage).stage)
    (hinserter : ∀ j, j ≠ i → ∀ number, s.inserter number = some j → t.inserter number = some j)
    (hknows : t.Knows tenantId i stage) : t.Consistent tenantId := by
  refine ⟨hdb ▸ h.numbered, fun j => ?_⟩
  rw [hstage, stage_advance]
  by_cases hj : j = i
  · rw [if_pos hj, hj]
    exact hknows
  · rw [if_neg hj]
    exact (h.knows j).keep hdb (hinserter j hj)

theorem inserter_finish {j : ι} {stage : Stage} (hj : j ≠ i) (h : s.inserter number = some j) :
    (s.finish i stage).inserter number = some j :=
  Option.filter_eq_some_iff.mpr ⟨h, decide_eq_true hj⟩

theorem Consistent.effect (h : s.Consistent tenantId) (heffect : Effect tenantId s t) :
    t.Consistent tenantId := by
  cases heffect with
  | updated i row locks idle => exact h.step rfl rfl (fun _ _ _ hj => hj) trivial
  | numbered i row updated =>
    exact h.step rfl rfl (fun _ _ _ hj => hj) ⟨Nat.succ_pos _, le_rfl⟩
  | read i row next numbered =>
    have hknows := h.knows i
    rw [numbered] at hknows
    obtain ⟨hpos, hle⟩ := hknows
    exact h.step rfl rfl (fun _ _ _ hj => hj) ⟨hpos, hle, fun _ => rfl⟩
  | inserted i row version read tenant free first =>
    have hknows := h.knows i
    rw [read] at hknows
    obtain ⟨hpos, hle, hsnapshot⟩ := hknows
    -- The number is free, so nothing was committed since it was read.
    have hnumber : version.version = s.db.latestVersion tenantId + 1 := by
      by_contra hne
      have htaken := h.numbered.isSome_find?_iff.mpr ⟨hpos, by omega⟩
      have hkey : version.perTenant = (tenantId, version.version) := Prod.ext tenant rfl
      rw [← hkey, free] at htaken
      cases htaken
    refine h.step rfl rfl (fun j hj number hown => ?_)
      ⟨tenant, hnumber, hsnapshot hnumber, Function.update_self ..⟩
    have hne : number ≠ version.version := by
      rintro rfl
      rw [first] at hown
      cases hown
    exact (Function.update_of_ne hne ..).trans hown
  | committed i row version versions inserted insert =>
    have hknows := h.knows i
    rw [inserted] at hknows
    obtain ⟨htenant, hnumber, hsnapshot, hfirst⟩ := hknows
    let written : ManagementDb := { s.db with rules := s.db.rules.put row, versions := versions }
    have hload : written.loadPublished tenantId = _ :=
      (ManagementDb.loadPublished_insert insert (htenant.symm ▸ hnumber) tenantId).trans
        (if_pos htenant)
    refine ⟨(h.numbered.insert insert htenant hnumber).1, fun j => ?_⟩
    change Knows tenantId _ j ((s.advance i (.committed version)).stage j)
    rw [stage_advance]
    by_cases hj : j = i
    · rw [if_pos hj]
      have hkey : version.perTenant = (tenantId, version.version) := Prod.ext htenant rfl
      refine ⟨?_, version, hload, hsnapshot⟩
      rw [← hkey, Table.find?_insert? insert, if_pos rfl]
    · rw [if_neg hj]
      refine Knows.commit (h.knows j) h.numbered ?_ htenant hnumber insert ⟨version, hload, hsnapshot⟩
      rw [hfirst]
      exact fun hown => hj (Option.some.inj hown).symm
  | aborted i hopen =>
    exact h.step rfl rfl (fun j hj number hown => inserter_finish hj hown) trivial

/-- What any interleaving keeps. -/
theorem consistent_run {publishers : ι → Publisher} {db : ManagementDb}
    (hstart : db.Numbered tenantId)
    (hrun : run (step tenantId publishers) { db := db } schedule = some s) :
    s.Consistent tenantId := by
  have hinit : ({ db := db } : Publishing ι).Consistent tenantId := ⟨hstart, fun _ => trivial⟩
  exact run_invariant (Consistent tenantId) (fun _ _ _ h hstep => h.effect (effect_of_step hstep))
    hinit hrun

theorem update_tenantId (publisher : Publisher) (row : Rule) :
    (publisher.update row).tenantId = row.tenantId := by
  unfold Publisher.update
  split <;> rfl

/-- A publication that runs alone does what `activate` and `archive` do to the rules, the versions
and the lists. -/
theorem alone {publishers : ι → Publisher} {db : ManagementDb} {row : Rule}
    (hfound : db.rule? tenantId (publishers i).ruleId = some row) : ∃ s,
      run (step tenantId publishers) { db := db }
        [.update i, .readNumber i, .readRules i, .insert i, .commit i] = some s ∧
      db.PutsAndPublishes s.db ((publishers i).update row) (publishers i).actorId := by
  have htenant : ((publishers i).update row).tenantId = tenantId :=
    (update_tenantId ..).trans (Table.find?_filter_eq_some_iff.mp hfound).2
  let version := ({ db with rules := db.rules.put ((publishers i).update row) } :
    ManagementDb).publication tenantId (publishers i).actorId
  obtain ⟨versions, hinsert, -⟩ := createVersion_ok db version rfl
  have hfree : db.versions.find? version.perTenant = none :=
    Table.find?_eq_none_iff.mpr (Table.insert?_eq_some_iff.mp hinsert).1
  obtain ⟨t₁, h₁, hstage₁, hdb₁, hfirst₁⟩ : ∃ t : Publishing ι,
      step tenantId publishers { db := db } (.update i) = some t ∧
        t.stage i = .updated ((publishers i).update row) ∧ t.db = db ∧
        t.inserter = fun _ => none := by
    refine ⟨{ advance { db := db } i (.updated ((publishers i).update row)) with
      rowLock := Function.update (fun _ => none) (publishers i).ruleId (some i) }, ?_,
      Function.update_self .., rfl, rfl⟩
    simp only [step, hfound]
  obtain ⟨t₂, h₂, hstage₂, hdb₂, hfirst₂⟩ : ∃ t : Publishing ι,
      step tenantId publishers t₁ (.readNumber i) = some t ∧
        t.stage i = .numbered ((publishers i).update row) version.version ∧ t.db = db ∧
        t.inserter = fun _ => none := by
    refine ⟨t₁.advance i (.numbered ((publishers i).update row) version.version), ?_,
      Function.update_self .., hdb₁, hfirst₁⟩
    simp only [step, hstage₁, hdb₁]
    rfl
  obtain ⟨t₃, h₃, hstage₃, hdb₃, hfirst₃⟩ : ∃ t : Publishing ι,
      step tenantId publishers t₂ (.readRules i) = some t ∧
        t.stage i = .read ((publishers i).update row) version.version version.rulesSnapshot ∧
        t.db = db ∧ t.inserter = fun _ => none := by
    refine ⟨t₂.advance i (.read _ version.version version.rulesSnapshot), ?_,
      Function.update_self .., hdb₂, hfirst₂⟩
    simp only [step, hstage₂, hdb₂]
    rfl
  obtain ⟨t₄, h₄, hstage₄, hdb₄⟩ : ∃ t : Publishing ι,
      step tenantId publishers t₃ (.insert i) = some t ∧
        t.stage i = .inserted ((publishers i).update row) version ∧ t.db = db := by
    refine ⟨{ t₃.advance i (.inserted _ version) with
      inserter := Function.update t₃.inserter version.version (some i) }, ?_,
      Function.update_self .., hdb₃⟩
    have hversion : version = ⟨tenantId, version.version, version.rulesSnapshot,
      db.namedLists tenantId, (publishers i).actorId⟩ := rfl
    simp only [step, hstage₃, hdb₃, ← hversion, hfree, hfirst₃]
  obtain ⟨t₅, h₅, hputs⟩ : ∃ t : Publishing ι,
      step tenantId publishers t₄ (.commit i) = some t ∧
        db.PutsAndPublishes t.db ((publishers i).update row) (publishers i).actorId := by
    refine ⟨{ t₄.finish i (.committed version) with
      db := { db with rules := db.rules.put ((publishers i).update row), versions := versions } },
      ?_, rfl, rfl, htenant.symm ▸ hinsert⟩
    simp only [step, hstage₄, hdb₄, hinsert]
  exact ⟨t₅, run_cons_eq_some.mpr ⟨t₁, h₁, run_cons_eq_some.mpr ⟨t₂, h₂, run_cons_eq_some.mpr
    ⟨t₃, h₃, run_cons_eq_some.mpr ⟨t₄, h₄, run_cons_eq_some.mpr ⟨t₅, h₅, rfl⟩⟩⟩⟩⟩, hputs⟩

end Publishing

/-- **No publication is lost.** Whatever the interleaving, the versions are numbered from one on
without a gap or a repeat, each publication that was committed has its version, and the newest
version holds the rules that are in force. -/
theorem no_publication_lost {ι : Type} [DecidableEq ι] {publishers : ι → Publisher}
    {db : ManagementDb} {s : Publishing ι} {schedule : List (PublishStep ι)}
    (hstart : db.Numbered tenantId)
    (hrun : run (Publishing.step tenantId publishers) { db := db } schedule = some s) :
    s.db.Numbered tenantId ∧
    ∀ i version, s.stage i = .committed version →
      s.db.versions.find? (tenantId, version.version) = some version ∧
      ∃ newest, s.db.loadPublished tenantId = some newest ∧
        newest.rulesSnapshot = s.db.publishedSnapshots tenantId ∧
        ∀ entry, entry ∈ newest.rulesSnapshot ∧ entry.state = .active ↔
          ∃ row ∈ s.db.rules.rows, row.tenantId = tenantId ∧ row.state = .active ∧
            row.snapshot = entry := by
  have hconsistent := Publishing.consistent_run hstart hrun
  refine ⟨hconsistent.numbered, fun i version hcommitted => ?_⟩
  have hknows := hconsistent.knows i
  rw [hcommitted] at hknows
  obtain ⟨hkept, newest, hload, hsnapshot⟩ := hknows
  refine ⟨hkept, newest, hload, hsnapshot, fun entry => ?_⟩
  rw [hsnapshot, ManagementDb.mem_publishedSnapshots_iff]
  constructor
  · rintro ⟨⟨row, hrow, hpublished, rfl⟩, hactive⟩
    exact ⟨row, (Table.find?_eq_some_iff.mp hrow).1, hpublished.1, hactive, rfl⟩
  · rintro ⟨row, hrow, htenant, hactive, rfl⟩
    exact ⟨⟨row, Table.find?_eq_some_iff.mpr ⟨hrow, rfl⟩, ⟨htenant, .inl hactive⟩, rfl⟩, hactive⟩

/-! Two rules are activated at once. The second activation finds its number taken, and is tried
again. -/

def draftRule (id name : String) : Rule where
  id := id
  tenantId := "tnt_1"
  content :=
    { name := name, category := "kyc", expression := "amount_minor > 50", severity := "block" }
  createdBy := "key_analyst"

def twoDrafts : ManagementDb :=
  { rules := ⟨[draftRule "rul_1" "First", draftRule "rul_2" "Second"], by decide⟩ }

def activations : Nat → Publisher
  | 0 => ⟨"rul_1", "key_officer", .activate 0⟩
  | _ => ⟨"rul_2", "key_officer", .activate 1⟩

def overtaken : List (PublishStep Nat) :=
  [.update 0, .update 1, .readNumber 0, .readNumber 1, .readRules 1, .readRules 0, .insert 0,
    .commit 0, .insert 1, .update 2, .readNumber 2, .readRules 2, .insert 2, .commit 2]

def Stage.version? : Stage → Option RuleSetVersion
  | .committed version => some version
  | _ => none

theorem no_publication_lost_overtaken : ∃ s newest,
    run (Publishing.step "tnt_1" activations) { db := twoDrafts } overtaken = some s ∧
      s.db.Numbered "tnt_1" ∧ s.db.loadPublished "tnt_1" = some newest ∧
      ∀ entry, entry ∈ newest.rulesSnapshot ∧ entry.state = .active ↔
        ∃ row ∈ s.db.rules.rows, row.tenantId = "tnt_1" ∧ row.state = .active ∧
          row.snapshot = entry := by
  have heval : ((run (Publishing.step "tnt_1" activations) { db := twoDrafts } overtaken).bind
      fun s => (s.stage 2).version?).isSome := by
    decide +kernel
  obtain ⟨version, hversion⟩ := Option.isSome_iff_exists.mp heval
  obtain ⟨s, hrun, hstage⟩ := Option.bind_eq_some_iff.mp hversion
  have hcommitted : s.stage 2 = .committed version := by
    cases h : s.stage 2 with
    | committed other =>
      rw [h] at hstage
      exact congrArg _ (Option.some.inj hstage)
    | _ =>
      rw [h] at hstage
      cases hstage
  have hstart : twoDrafts.Numbered "tnt_1" := List.Perm.refl []
  obtain ⟨hnumbered, hnewest⟩ := no_publication_lost hstart hrun
  obtain ⟨-, newest, hload, -, hactive⟩ := hnewest 2 version hcommitted
  exact ⟨s, newest, hrun, hnumbered, hload, hactive⟩

end ComplyLayer
