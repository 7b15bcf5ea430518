import ComplyLayer.Theory.Owners
import ComplyLayer.Verify.Idempotency

/-!
# The decisions of each tenant as if alone

The requests of all tenants share the two tables. A tenant finds the stored responses, and has the
decisions, of a run in which nobody else sent a request.
-/

namespace ComplyLayer

open Theory

/-- The tenant of a request. -/
def DecisionRequest.tenantId (request : DecisionRequest) : String := request.handler.tenantId

def Database.ofTenant (db : Database) (tenantId : String) : Database where
  decisions := db.decisions.select fun row => row.tenantId = tenantId
  records := db.records.select fun record => record.tenantId = tenantId
  tenants := db.tenants

/-- What a tenant sees: its rows, and how far its requests have come. -/
def World.ofTenant (requests : Nat → DecisionRequest) (tenantId : String) (w : World) : World where
  db := w.db.ofTenant tenantId
  progress r := if (requests r).tenantId = tenantId then w.progress r else .received

section
variable {py : Python} {hash : HashCustomerRef} {requests : Nat → DecisionRequest}
  {tenantId : String} {w w' : World} {db db' : Database} {body : Dict String Value}

/-- The decision that a step would save. -/
def World.saving? (py : Python) (hash : HashCustomerRef) (requests : Nat → DecisionRequest)
    (w : World) : DecisionStep → Option DecisionRow
  | .save r =>
    match w.progress r with
    | .decided body =>
      (DatabaseStore.rowsOf py ((requests r).handler.recordArguments hash body
        (requests r).transaction (requests r).idempotencyKey)).map Prod.fst
    | _ => none
  | _ => none

/-- A decision that is saved has not the id and the moment of a decision of another tenant. -/
def SavesApart (py : Python) (hash : HashCustomerRef) (requests : Nat → DecisionRequest) (w : World)
    (e : DecisionStep) : Prop :=
  ∀ row ∈ w.saving? py hash requests e,
    ∀ other ∈ w.db.decisions.rows, other.pk = row.pk → other.tenantId = row.tenantId

instance (w : World) (e : DecisionStep) : Decidable (SavesApart py hash requests w e) :=
  inferInstanceAs (Decidable (∀ row ∈ w.saving? py hash requests e,
    ∀ other ∈ w.db.decisions.rows, other.pk = row.pk → other.tenantId = row.tenantId))

theorem SavesApart.of_rowsOf (h : SavesApart py hash requests w (.save r))
    (hdecided : w.progress r = .decided body)
    (hrows : DatabaseStore.rowsOf py ((requests r).handler.recordArguments hash body
      (requests r).transaction (requests r).idempotencyKey) = some (row, record)) :
    ∀ other ∈ w.db.decisions.rows, other.pk = row.pk → other.tenantId = row.tenantId := by
  refine h row ?_
  rw [World.saving?, hdecided]
  exact congrArg (Option.map Prod.fst) hrows

/-! ## The tables -/

theorem findResponse_ofTenant (db : Database) (tenantId idempotencyKey : String) :
    DatabaseStore.findResponse (db.ofTenant tenantId) tenantId idempotencyKey =
      DatabaseStore.findResponse db tenantId idempotencyKey := by
  have hfind : (db.ofTenant tenantId).records.find? (tenantId, idempotencyKey) =
      db.records.find? (tenantId, idempotencyKey) :=
    Table.find?_select fun record _ hkey => decide_eq_true (congrArg Prod.fst hkey)
  rw [DatabaseStore.findResponse, hfind]
  rfl

/-- What the tables take of a tenant does not depend on the rows of others. -/
theorem takes_ofTenant_iff (db : Database) (hrecord : record.tenantId = tenantId) :
    (db.ofTenant tenantId).Takes row record ↔ db.Takes row record := by
  have hfind : (db.ofTenant tenantId).records.find? record.perTenant =
      db.records.find? record.perTenant :=
    Table.find?_select fun other _ hkey => decide_eq_true ((congrArg Prod.fst hkey).trans hrecord)
  constructor
  · rintro ⟨htenant, hdecision, h⟩
    exact ⟨htenant, hdecision, hfind ▸ h⟩
  · rintro ⟨htenant, hdecision, h⟩
    exact ⟨htenant, hdecision, hfind.symm ▸ h⟩

/-- The rows that are written for a request are of its tenant. -/
theorem rowsOf_tenants {transaction : Transaction} {handler : DecisionHandler}
    (h : DatabaseStore.rowsOf py (handler.recordArguments hash body transaction idempotencyKey) =
      some (row, record)) :
    row.tenantId = handler.tenantId ∧ record.tenantId = handler.tenantId := by
  obtain ⟨hrow, hrecord, -⟩ := DatabaseStore.rowsOf_spec h
  exact ⟨congrArg Prod.fst hrow, congrArg Prod.fst hrecord⟩

theorem save_ofTenant {args : SaveArguments}
    (hargs : ∀ row record, DatabaseStore.rowsOf py args = some (row, record) →
      row.tenantId = tenantId ∧ record.tenantId = tenantId)
    (hapart : ∀ row record, DatabaseStore.rowsOf py args = some (row, record) →
      ∀ other ∈ db.decisions.rows, other.pk = row.pk → other.tenantId = row.tenantId) :
    DatabaseStore.save py (db.ofTenant tenantId) args =
      (DatabaseStore.save py db args).map (·.ofTenant tenantId) := by
  unfold DatabaseStore.save
  cases hrows : DatabaseStore.rowsOf py args with
  | none => rfl
  | some rows =>
    obtain ⟨row, record⟩ := rows
    obtain ⟨hrow, hrecord⟩ := hargs row record hrows
    have hinsert : (db.ofTenant tenantId).decisions.insert? row =
        (db.decisions.insert? row).map (Table.select fun row => row.tenantId = tenantId) :=
      Table.insert?_select (decide_eq_true hrow) fun other hother hpk =>
        decide_eq_true ((hapart row record hrows other hother hpk).trans hrow)
    have hcreate : (db.ofTenant tenantId).records.getOrCreate record =
        (db.records.getOrCreate record).select fun record => record.tenantId = tenantId :=
      Table.getOrCreate_select (decide_eq_true hrecord) fun other _ hkey =>
        decide_eq_true ((congrArg Prod.fst hkey).trans hrecord)
    have htakes : (db.ofTenant tenantId).Takes row record ↔ db.Takes row record :=
      takes_ofTenant_iff db hrecord
    simp only [Option.bind_eq_bind, Option.bind_some, hinsert, hcreate, htakes]
    cases db.decisions.insert? row with
    | none => rfl
    | some decisions =>
      by_cases h : db.Takes row record
      · simp only [Option.map_some, Option.bind_some, if_pos h]
        rfl
      · simp only [Option.map_some, Option.bind_some, if_neg h]
        rfl

theorem ofTenant_of_save {args : SaveArguments}
    (hargs : ∀ row record, DatabaseStore.rowsOf py args = some (row, record) →
      row.tenantId ≠ tenantId ∧ record.tenantId ≠ tenantId)
    (h : DatabaseStore.save py db args = some db') :
    db'.ofTenant tenantId = db.ofTenant tenantId := by
  obtain ⟨row, record, hrows, hinsert, hrecords, -, htenants⟩ := DatabaseStore.save_eq_some_iff.mp h
  obtain ⟨hrow, hrecord⟩ := hargs row record hrows
  have hdecisions : db'.decisions.select (fun row => row.tenantId = tenantId) =
      db.decisions.select fun row => row.tenantId = tenantId :=
    Table.select_insert?_of_not (decide_eq_false hrow) hinsert
  have hkept : db'.records.select (fun record => record.tenantId = tenantId) =
      db.records.select fun record => record.tenantId = tenantId := by
    rw [hrecords]
    exact Table.select_getOrCreate_of_not (decide_eq_false hrecord)
  rw [Database.ofTenant, Database.ofTenant, hdecisions, hkept, htenants]

/-! ## The steps -/

theorem ofTenant_advance (h : (requests r).tenantId = tenantId) (w : World) (p : Progress) :
    (w.advance r p).ofTenant requests tenantId = (w.ofTenant requests tenantId).advance r p := by
  unfold World.ofTenant World.advance
  congr 1
  funext i
  by_cases hi : i = r
  · subst hi
    simp [h]
  · simp [hi]

theorem ofTenant_advance_of_ne (h : (requests r).tenantId ≠ tenantId) (w : World) (p : Progress) :
    (w.advance r p).ofTenant requests tenantId = w.ofTenant requests tenantId := by
  unfold World.ofTenant World.advance
  congr 1
  funext i
  by_cases hi : i = r
  · subst hi
    simp [h]
  · simp [hi]

theorem progress_ofTenant (h : (requests r).tenantId = tenantId) (w : World) :
    (w.ofTenant requests tenantId).progress r = w.progress r := if_pos h

/-- A step of the tenant comes to what it comes to without the others. -/
theorem decisionStep_own (hapart : SavesApart py hash requests w e)
    (hown : (requests e.request).tenantId = tenantId)
    (h : decisionStep py hash requests w e = some w') :
    decisionStep py hash requests (w.ofTenant requests tenantId) e =
      some (w'.ofTenant requests tenantId) := by
  subst hown
  cases e with
  | find r =>
    have hfind : DatabaseStore.findResponse (w.ofTenant requests (requests r).tenantId).db
        (requests r).handler.tenantId (requests r).idempotencyKey =
          DatabaseStore.findResponse w.db (requests r).handler.tenantId
            (requests r).idempotencyKey :=
      findResponse_ofTenant w.db _ _
    simp only [decisionStep, DecisionStep.request, progress_ofTenant rfl, hfind] at h ⊢
    split at h
    · split at h <;> cases h <;> exact congrArg some (ofTenant_advance rfl w _).symm
    · cases h
  | evaluate r velocity store now decisionId latencyMs =>
    simp only [decisionStep, DecisionStep.request, progress_ofTenant rfl] at h ⊢
    split at h
    · split at h <;> cases h <;> exact congrArg some (ofTenant_advance rfl w _).symm
    · cases h
  | save r =>
    simp only [decisionStep, DecisionStep.request, progress_ofTenant rfl] at h ⊢
    split at h
    · rename_i body hdecided
      have hsave : (requests r).handler.record py hash
          (w.ofTenant requests (requests r).tenantId).db body (requests r).transaction
            (requests r).idempotencyKey =
          ((requests r).handler.record py hash w.db body (requests r).transaction
            (requests r).idempotencyKey).map (·.ofTenant (requests r).tenantId) :=
        save_ofTenant (fun _ _ => rowsOf_tenants) fun _ _ => hapart.of_rowsOf hdecided
      rw [hsave]
      split at h
      · rename_i db hrecord
        cases h
        rw [hrecord]
        exact congrArg some (ofTenant_advance rfl { w with db := db } _).symm
      · rename_i hrecord
        cases h
        rw [hrecord]
        exact congrArg some (ofTenant_advance rfl w _).symm
    · cases h
  | answer r =>
    simp only [decisionStep, DecisionStep.request, progress_ofTenant rfl] at h ⊢
    split at h
    · cases h
      exact congrArg some (ofTenant_advance rfl w _).symm
    · cases h
  | abort r =>
    simp only [decisionStep, DecisionStep.request, progress_ofTenant rfl] at h ⊢
    split at h
    · cases h
    · cases h
      exact congrArg some (ofTenant_advance rfl w _).symm

/-- A step of another tenant is not seen. -/
theorem decisionStep_other (hother : (requests e.request).tenantId ≠ tenantId)
    (h : decisionStep py hash requests w e = some w') :
    w'.ofTenant requests tenantId = w.ofTenant requests tenantId := by
  obtain ⟨p, rfl, -⟩ | ⟨body, db, -, hrecord, rfl⟩ := decisionStep_moves h
  · exact ofTenant_advance_of_ne hother w p
  · have hdb : db.ofTenant tenantId = w.db.ofTenant tenantId := by
      refine ofTenant_of_save (fun row record hrows => ?_) hrecord
      obtain ⟨hrow, hrec⟩ := rowsOf_tenants hrows
      exact ⟨fun heq => hother (hrow.symm.trans heq), fun heq => hother (hrec.symm.trans heq)⟩
    refine (ofTenant_advance_of_ne hother { w with db := db } _).trans ?_
    rw [World.ofTenant, World.ofTenant, hdb]

end

/-! ## Every run -/

theorem ofTenant_start (requests : Nat → DecisionRequest) (tenantId : String) :
    World.ofTenant requests tenantId ⟨{}, fun _ => .received⟩ = ⟨{}, fun _ => .received⟩ := by
  rw [World.ofTenant]
  congr 1
  funext r
  exact ite_self _

/-- **A tenant decides as if alone.** Its steps alone lead to its rows and its answers. -/
theorem decided_as_alone {py : Python} {hash : HashCustomerRef} {requests : Nat → DecisionRequest}
    {steps : List DecisionStep} {w : World}
    (hapart : Along (decisionStep py hash requests) (SavesApart py hash requests)
      ⟨{}, fun _ => .received⟩ steps)
    (hrun : run (decisionStep py hash requests) ⟨{}, fun _ => .received⟩ steps = some w)
    (tenantId : String) :
    run (decisionStep py hash requests) ⟨{}, fun _ => .received⟩
        (steps.filter fun e => (requests e.request).tenantId = tenantId) =
      some (w.ofTenant requests tenantId) := by
  have halone := run_alone (World.ofTenant requests tenantId)
    (fun e => decide ((requests e.request).tenantId = tenantId))
    (fun _ _ _ hG hown => decisionStep_own hG (of_decide_eq_true hown))
    (fun _ _ _ hother => decisionStep_other (of_decide_eq_false hother)) hapart hrun
  rwa [ofTenant_start] at halone

/-! Two tenants that use the same key. -/

def sameKey (r : Nat) : DecisionRequest :=
  { sampleRequest with
    handler := { sampleRequest.handler with tenantId := if r = 0 then "tnt_1" else "tnt_2" } }

theorem decided_as_alone_sameKey :
    ∃ w, run (decisionStep samplePython (fun ref _ => ref) sameKey)
        ⟨{}, fun _ => .received⟩ overlappingSteps = some w ∧
      w.db.decisions.rows.map (·.tenantId) = ["tnt_1", "tnt_2"] ∧
      run (decisionStep samplePython (fun ref _ => ref) sameKey) ⟨{}, fun _ => .received⟩
          (overlappingSteps.filter fun e => (sameKey e.request).tenantId = "tnt_1") =
        some (w.ofTenant sameKey "tnt_1") := by
  have hapart : Along (decisionStep samplePython (fun ref _ => ref) sameKey)
      (SavesApart samplePython (fun ref _ => ref) sameKey) ⟨{}, fun _ => .received⟩
        overlappingSteps := by
    decide +kernel
  exact ⟨_, rfl, rfl, decided_as_alone hapart rfl "tnt_1"⟩

end ComplyLayer
