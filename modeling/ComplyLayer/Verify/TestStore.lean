import ComplyLayer.Api.Store
import Mathlib.Data.List.Forall2

/-!
# The store of the tests

`DatabaseStore` keeps the first response of a key, by its constraint, and `InMemoryStore` the last,
by assignment. So they answer alike exactly as long as no key is read whose last save has another
response than the first, as `jsonb` gives that back; and they have the same decisions exactly when
the database takes and gives back every save, with columns and a table of tenants where
`InMemoryStore` has neither.
-/

namespace ComplyLayer

open Theory

inductive StoreCall where
  | save (args : SaveArguments)
  | findResponse (tenantId idempotencyKey : String)

namespace StoreCall

def args? : StoreCall → Option SaveArguments
  | save args => some args
  | findResponse _ _ => none

def onMemory (store : InMemoryStore) : StoreCall → InMemoryStore
  | save args => store.save args
  | findResponse _ _ => store

/-- A save that raises leaves the database as it is. -/
def onDatabase (py : Python) (db : Database) : StoreCall → Database
  | save args => (DatabaseStore.save py db args).getD db
  | findResponse _ _ => db

end StoreCall

def memoryAfter (calls : List StoreCall) : InMemoryStore := calls.foldl StoreCall.onMemory {}

/-- The two tables are empty at first; the tenants are there. -/
def databaseAfter (py : Python) (tenants : String → Bool) (calls : List StoreCall) : Database :=
  calls.foldl (StoreCall.onDatabase py) { tenants := tenants }

def savesOf (calls : List StoreCall) : List SaveArguments := calls.filterMap StoreCall.args?

namespace SaveArguments

def saved (args : SaveArguments) : SavedDecision :=
  ⟨args.body, args.transaction, args.customerRefHash, args.rulesetVersion⟩

def perTenant (args : SaveArguments) : String × String := (args.tenantId, args.idempotencyKey)

def decisionId (args : SaveArguments) : Option Value := args.body.get? "decision_id"

def response (args : SaveArguments) : Dict String Value := publicBody args.body

end SaveArguments

/-- A response is what it is whatever the order of its keys. -/
def responseJson (response : Dict String Value) : Value := (Value.dict response.entries).sortKeys

/-- What is in the `jsonb` columns. -/
def DecisionRow.documents (row : DecisionRow) : List Value :=
  [.dict row.context.entries, row.resolvedFacts, row.matchedRules, row.shadowMatches,
    row.erroredRules]

/-- The row comes back as it was written, and records what was saved, under some tenant and key. -/
def DecisionRow.Records (py : Python) (column : JsonbColumn) (row : DecisionRow)
    (saved : SavedDecision) : Prop :=
  (∀ document ∈ row.documents, column.Returns document) ∧
    ∃ args record, args.saved = saved ∧ DatabaseStore.rowsOf py args = some (row, record)

/-- The two stores, both empty at first, answer every `find_response` alike, and have the same
decisions in the end. -/
structure SameStore (py : Python) (column : JsonbColumn) (tenants : String → Bool)
    (calls : List StoreCall) : Prop where
  responses : ∀ before tenantId key after,
    calls = before ++ .findResponse tenantId key :: after →
    (DatabaseStore.findResponse (databaseAfter py tenants before) tenantId key).map
        (fun response => responseJson (column.document response)) =
      ((memoryAfter before).findResponse tenantId key).map responseJson
  decisions : List.Forall₂ (DecisionRow.Records py column)
    (databaseAfter py tenants calls).decisions.rows (memoryAfter calls).saved

/-- The saves of a key. -/
def savesUnder (calls : List StoreCall) (k : String × String) : List SaveArguments :=
  (savesOf calls).filter fun args => args.perTenant = k

/-- The database takes every save: its body makes the rows, its tenant is there, and every column
takes its value, those of the response for the first save of a key only. And it gives the documents
of the decision back as they were. -/
def Storable (py : Python) (column : JsonbColumn) (tenants : String → Bool)
    (calls : List StoreCall) : Prop :=
  ∀ before args after, calls = before ++ .save args :: after → ∃ row record,
    DatabaseStore.rowsOf py args = some (row, record) ∧ tenants args.tenantId ∧ row.Fits ∧
      (∀ document ∈ row.documents, column.Returns document) ∧
      (savesUnder before args.perTenant = [] → record.Fits)

section
variable {py : Python} {column : JsonbColumn} {tenants : String → Bool} {calls : List StoreCall}
  {call : StoreCall} {args args' : SaveArguments} {k : String × String}

theorem memoryAfter_concat (calls : List StoreCall) (call : StoreCall) :
    memoryAfter (calls ++ [call]) = call.onMemory (memoryAfter calls) := by
  rw [memoryAfter, List.foldl_append]
  rfl

theorem databaseAfter_concat (py : Python) (tenants : String → Bool) (calls : List StoreCall)
    (call : StoreCall) : databaseAfter py tenants (calls ++ [call]) =
      call.onDatabase py (databaseAfter py tenants calls) := by
  rw [databaseAfter, List.foldl_append]
  rfl

theorem savesOf_concat (calls : List StoreCall) (call : StoreCall) :
    savesOf (calls ++ [call]) = savesOf calls ++ call.args?.toList := by
  rw [savesOf, List.filterMap_append]
  cases call <;> rfl

theorem savesUnder_concat (calls : List StoreCall) (args : SaveArguments) (k : String × String) :
    savesUnder (calls ++ [.save args]) k =
      if args.perTenant = k then savesUnder calls k ++ [args] else savesUnder calls k := by
  rw [savesUnder, savesOf_concat, List.filter_append]
  by_cases h : args.perTenant = k
  · rw [if_pos h]
    exact congrArg _ (List.filter_cons_of_pos (decide_eq_true h))
  · rw [if_neg h]
    refine (congrArg _ (List.filter_cons_of_neg ?_)).trans (List.append_nil _)
    exact fun heq => h (of_decide_eq_true heq)

theorem savesUnder_find (calls : List StoreCall) (tenantId key : String) (k : String × String) :
    savesUnder (calls ++ [.findResponse tenantId key]) k = savesUnder calls k := by
  rw [savesUnder, savesOf_concat, StoreCall.args?, Option.toList_none, List.append_nil]
  rfl

/-! ## The store without a database -/

theorem saved_memoryAfter (calls : List StoreCall) :
    (memoryAfter calls).saved = (savesOf calls).map SaveArguments.saved := by
  induction calls using List.reverseRecOn with
  | nil => rfl
  | append_singleton calls call ih =>
    rw [memoryAfter_concat, savesOf_concat, List.map_append, ← ih]
    cases call with
    | save args => rfl
    | findResponse => exact (List.append_nil _).symm

/-- The row of a save has its decision id. -/
theorem rowsOf_decisionId (h : DatabaseStore.rowsOf py args = some (row, record)) :
    args.decisionId = some (.str row.id) := by
  unfold DatabaseStore.rowsOf at h
  split at h
  · rename_i id text hid _
    simp only [bind, Option.bind_eq_some_iff, pure, Option.some.injEq, Prod.mk.injEq] at h
    obtain ⟨moment, -, outcome, -, matched, -, reason, -, degraded, -, rfl, -⟩ := h
    exact hid
  · cases h

/-- The database after saves that it takes, none of which has the decision id of another: it has the
row of each, and answers with the first save of the key. -/
structure Saved (py : Python) (column : JsonbColumn) (tenants : String → Bool) (db : Database)
    (calls : List StoreCall) : Prop where
  tenants : db.tenants = tenants
  rows : List.Forall₂ (DecisionRow.Records py column) db.decisions.rows
    ((savesOf calls).map SaveArguments.saved)
  ids : ∀ row ∈ db.decisions.rows, ∃ args ∈ savesOf calls, args.decisionId = some (.str row.id)
  responses : ∀ k, (db.records.find? k).map (·.responseBody) =
    (savesUnder calls k).head?.map SaveArguments.response

theorem Saved.save {db : Database} (h : Saved py column tenants db calls)
    (hrows : DatabaseStore.rowsOf py args = some (row, record)) (htenant : tenants args.tenantId)
    (hfits : row.Fits) (hreturns : ∀ document ∈ row.documents, column.Returns document)
    (hrecord : savesUnder calls args.perTenant = [] → record.Fits)
    (hnew : ∀ earlier ∈ savesOf calls, earlier.decisionId ≠ args.decisionId) :
    ∃ db', DatabaseStore.save py db args = some db' ∧
      Saved py column tenants db' (calls ++ [.save args]) := by
  obtain ⟨hdecision, hperTenant, hresponse⟩ := DatabaseStore.rowsOf_spec hrows
  have htakes : db.Takes row record := by
    refine ⟨?_, hfits, ?_⟩
    · have hrow : row.tenantId = args.tenantId := congrArg Prod.fst hdecision
      rw [h.tenants, hrow]
      exact htenant
    · have hk := h.responses record.perTenant
      cases hfound : db.records.find? record.perTenant with
      | some old => exact .inl rfl
      | none =>
        rw [hfound] at hk
        have hnone : (savesUnder calls record.perTenant).head? = none :=
          Option.map_eq_none_iff.mp hk.symm
        rw [hperTenant] at hnone
        exact .inr (hrecord (List.head?_eq_none_iff.mp hnone))
  have hpk : row.pk ∉ db.decisions.rows.map DecisionRow.pk := by
    intro hmem
    obtain ⟨old, hold, hkey⟩ := List.mem_map.mp hmem
    obtain ⟨earlier, hearlier, hid⟩ := h.ids old hold
    have hsame : old.id = row.id := congrArg Prod.fst hkey
    refine hnew earlier hearlier (hid.trans ?_)
    rw [hsame, rowsOf_decisionId hrows]
  obtain ⟨decisions, hinsert⟩ : ∃ decisions, db.decisions.insert? row = some decisions := by
    rw [← Option.isSome_iff_exists, Option.isSome_iff_ne_none]
    intro hnone
    rw [Table.insert?_eq_none_iff, Option.isSome_iff_ne_none] at hnone
    exact hnone (Table.find?_eq_none_iff.mpr hpk)
  have hinserted : decisions.rows = db.decisions.rows ++ [row] :=
    (Table.insert?_eq_some_iff.mp hinsert).2
  have hsaves : savesOf (calls ++ [.save args]) = savesOf calls ++ [args] := savesOf_concat _ _
  refine ⟨{ db with decisions := decisions, records := db.records.getOrCreate record },
    DatabaseStore.save_eq_some_iff.mpr ⟨row, record, hrows, hinsert, rfl, htakes, rfl⟩, h.tenants,
    ?_, ?_, fun k => ?_⟩
  · rw [hinserted, hsaves, List.map_append]
    exact List.rel_append h.rows (.cons ⟨hreturns, args, record, rfl, hrows⟩ .nil)
  · intro old hold
    rw [hinserted] at hold
    rw [hsaves]
    rcases List.mem_append.mp hold with hold | hold
    · obtain ⟨earlier, hearlier, hid⟩ := h.ids old hold
      exact ⟨earlier, List.mem_append_left _ hearlier, hid⟩
    · rw [List.mem_singleton.mp hold]
      exact ⟨args, List.mem_append_right _ (List.mem_singleton_self args),
        rowsOf_decisionId hrows⟩
  · have hk := h.responses k
    rw [Table.find?_getOrCreate, savesUnder_concat]
    by_cases hkey : args.perTenant = k
    · rw [if_pos hkey, if_pos (hperTenant.trans hkey), List.head?_append]
      cases hfound : db.records.find? k with
      | none =>
        rw [hfound] at hk
        have hfirst : (savesUnder calls k).head? = none := Option.map_eq_none_iff.mp hk.symm
        rw [hfirst]
        exact congrArg some hresponse
      | some old =>
        rw [hfound] at hk
        obtain ⟨first, hfirst, hsame⟩ := Option.map_eq_some_iff.mp hk.symm
        rw [hfirst]
        exact congrArg some hsame.symm
    · rw [if_neg hkey, if_neg fun heq => hkey (hperTenant.symm.trans heq)]
      exact hk

theorem tenants_databaseAfter (py : Python) (tenants : String → Bool) (calls : List StoreCall) :
    (databaseAfter py tenants calls).tenants = tenants := by
  induction calls using List.reverseRecOn with
  | nil => rfl
  | append_singleton calls call ih =>
    rw [databaseAfter_concat]
    cases call with
    | findResponse => exact ih
    | save args =>
      rw [StoreCall.onDatabase]
      cases hsave : DatabaseStore.save py (databaseAfter py tenants calls) args with
      | none => exact ih
      | some db =>
        obtain ⟨-, -, -, -, -, -, htenants⟩ := DatabaseStore.save_eq_some_iff.mp hsave
        exact htenants.trans ih

/-- A key that has a record was saved. -/
theorem savesUnder_of_found (h : ((databaseAfter py tenants calls).records.find? k).isSome) :
    savesUnder calls k ≠ [] := by
  induction calls using List.reverseRecOn with
  | nil => cases h
  | append_singleton calls call ih =>
    rw [databaseAfter_concat] at h
    cases call with
    | findResponse tenantId key =>
      rw [savesUnder_find]
      exact ih h
    | save args =>
      rw [savesUnder_concat]
      by_cases hkey : args.perTenant = k
      · rw [if_pos hkey]
        simp
      · rw [if_neg hkey]
        refine ih ?_
        rw [StoreCall.onDatabase] at h
        cases hsave : DatabaseStore.save py (databaseAfter py tenants calls) args with
        | none =>
          rw [hsave] at h
          exact h
        | some db =>
          rw [hsave, Option.getD_some] at h
          obtain ⟨row, record, hrows, -, hrecords, -⟩ := DatabaseStore.save_eq_some_iff.mp hsave
          obtain ⟨-, hperTenant, -⟩ := DatabaseStore.rowsOf_spec hrows
          rwa [hrecords, Table.find?_getOrCreate,
            if_neg fun heq => hkey (hperTenant.symm.trans heq)] at h

/-- A save adds one decision, or none. -/
theorem rows_foldl (py : Python) (calls : List StoreCall) (db : Database) : ∃ more,
    (calls.foldl (StoreCall.onDatabase py) db).decisions.rows = db.decisions.rows ++ more ∧
      more.length ≤ (savesOf calls).length := by
  induction calls generalizing db with
  | nil => exact ⟨[], (List.append_nil _).symm, le_rfl⟩
  | cons call calls ih =>
    obtain ⟨more, hmore, hlength⟩ := ih (call.onDatabase py db)
    rw [List.foldl_cons, hmore]
    cases call with
    | findResponse => exact ⟨more, rfl, hlength⟩
    | save args =>
      have hsaves : (savesOf (.save args :: calls)).length = (savesOf calls).length + 1 := rfl
      rw [hsaves, StoreCall.onDatabase]
      cases hsave : DatabaseStore.save py db args with
      | none => exact ⟨more, rfl, hlength.trans (Nat.le_succ _)⟩
      | some db' =>
        obtain ⟨row, -, -, hinsert, -⟩ := DatabaseStore.save_eq_some_iff.mp hsave
        refine ⟨row :: more, ?_, Nat.succ_le_succ hlength⟩
        rw [Option.getD_some, (Table.insert?_eq_some_iff.mp hinsert).2, List.append_assoc,
          List.singleton_append]

/-- Where the two have the same decisions, the database took every save. -/
theorem SameStore.storable (h : SameStore py column tenants calls) :
    Storable py column tenants calls := by
  rintro before args after rfl
  have hall : databaseAfter py tenants (before ++ .save args :: after) =
      after.foldl (StoreCall.onDatabase py)
        ((DatabaseStore.save py (databaseAfter py tenants before) args).getD
          (databaseAfter py tenants before)) := by
    rw [databaseAfter, List.foldl_append]
    rfl
  obtain ⟨earlier, hearlier, hbefore⟩ := rows_foldl py before { tenants := tenants }
  obtain ⟨later, hlater, hafter⟩ := rows_foldl py after
    ((DatabaseStore.save py (databaseAfter py tenants before) args).getD
      (databaseAfter py tenants before))
  rw [← hall] at hlater
  cases hsave : DatabaseStore.save py (databaseAfter py tenants before) args with
  | none =>
    -- One decision is missing from then on.
    have hlength : (databaseAfter py tenants (before ++ .save args :: after)).decisions.rows.length =
        (savesOf before).length + ((savesOf after).length + 1) := by
      rw [h.decisions.length_eq, saved_memoryAfter, List.length_map, savesOf, List.filterMap_append,
        List.length_append]
      rfl
    have hempty : (databaseAfter py tenants before).decisions.rows = earlier := hearlier
    rw [hlater, hsave, Option.getD_none, List.length_append, hempty] at hlength
    omega
  | some db =>
    obtain ⟨row, record, hrows, hinsert, -, htakes, -⟩ := DatabaseStore.save_eq_some_iff.mp hsave
    obtain ⟨hdecision, hperTenant, -⟩ := DatabaseStore.rowsOf_spec hrows
    have hrow : row.tenantId = args.tenantId := congrArg Prod.fst hdecision
    have hmem : row ∈ (databaseAfter py tenants (before ++ .save args :: after)).decisions.rows := by
      rw [hlater, hsave, Option.getD_some, (Table.insert?_eq_some_iff.mp hinsert).2]
      exact List.mem_append_left _ (List.mem_append_right _ (List.mem_singleton_self row))
    refine ⟨row, record, hrows, ?_, htakes.decision,
      ((List.forall₂_and_left _ _).mp h.decisions).1 row hmem, fun hnone => ?_⟩
    · rw [← hrow, ← tenants_databaseAfter py tenants before]
      exact htakes.tenant
    · refine htakes.record.resolve_left fun hfound => savesUnder_of_found hfound ?_
      rw [hperTenant]
      exact hnone

end

/-! A decision saved and read back, and a second one of its key saved before that. -/

end ComplyLayer
