import ComplyLayer.Audit.Jsonb
import ComplyLayer.Verify.ChainHistory

/-!
# Hashes and what the columns give back

A record is hashed over its values as they are spelled before they are stored, and verified over
them as they are spelled when they are read. The two agree for a moment given at an offset of zero,
and for documents in which no float comes back as an integer: a record with any other is reported
as altered from the start (`hashes_survive_iff`).
-/

namespace ComplyLayer

open Theory

/-- The documents of a call are JSON. -/
structure AppendArgs.IsJson (args : AppendArgs) : Prop where
  actor : (Value.dict args.actor.entries).IsJson
  subject : (Value.dict args.subject.entries).IsJson
  payload : (Value.dict (args.payload.getD ∅).entries).IsJson

/-- A document the runtime's column takes is read back as the column gives it. -/
def AuditRuntime.ReadsBack (rt : AuditRuntime) (column : JsonbColumn) : Prop :=
  ∀ d d', (Value.dict d.entries).IsJson → rt.jsonb d = some d' → d' = column.document d

/-- What is given is spelled as the columns spell it: a moment is given in UTC, and no float comes
back as an integer. -/
structure AppendArgs.Canonical (column : JsonbColumn) (args : AppendArgs) : Prop where
  occurredAt : ∀ moment ∈ args.occurredAt, moment.utcoffset = some 0
  actor : ∀ u ∈ (Value.dict args.actor.entries).parts, column.Keeps u
  subject : ∀ u ∈ (Value.dict args.subject.entries).parts, column.Keeps u
  payload : ∀ u ∈ (Value.dict (args.payload.getD ∅).entries).parts, column.Keeps u

/-- The columns take the call's record: its documents, its event type, its id and its tenant. -/
structure AuditDb.Takes (rt : AuditRuntime) (db : AuditDb) (call : AuditCall) : Prop where
  actor : (rt.jsonb call.args.actor).isSome = true
  subject : (rt.jsonb call.args.subject).isSome = true
  payload : (rt.jsonb (call.args.payload.getD ∅)).isSome = true
  eventType : call.args.eventType.length ≤ 64
  id : newAuditId call.draws.hex ∉ db.records.map (·.id)
  tenantId : call.args.tenantId ∈ db.tenants

/-- The record hashes to what it stores. -/
def AuditRecord.Hashed (rt : AuditRuntime) (record : AuditRecord) : Prop :=
  computeHash rt record.toAuditFields = record.hash

/-! ## One record -/

theorem Datetime.timestamptz_eq_self_iff {moment : Datetime} :
    moment.timestamptz = moment ↔ moment.utcoffset = some 0 := by
  obtain ⟨wall, offset⟩ := moment
  rw [timestamptz, mk.injEq]
  constructor
  · exact fun h => h.2.symm
  · intro h
    subst h
    exact ⟨Int.sub_zero wall, rfl⟩

variable {rt : AuditRuntime} {encoder : JsonEncoder} {column : JsonbColumn}

/-- With other documents and another moment, a record is written the same when each of them is. -/
theorem canonicalPayload_with_iff (hrt : rt.Encodes encoder) (fields : AuditFields)
    (moment : Datetime) (actor subject payload : Dict String Value) :
    canonicalPayload rt { fields with
        occurredAt := moment, actor := actor, subject := subject, payload := payload } =
        canonicalPayload rt fields ↔
      rt.isoformat moment = rt.isoformat fields.occurredAt ∧
        encoder.json (.dict actor.entries) = encoder.json (.dict fields.actor.entries) ∧
        encoder.json (.dict subject.entries) = encoder.json (.dict fields.subject.entries) ∧
        encoder.json (.dict payload.entries) = encoder.json (.dict fields.payload.entries) := by
  have hjson (a b : AuditFields) : canonicalPayload rt a = canonicalPayload rt b ↔
      encoder.json (.dict (a.document rt)) = encoder.json (.dict (b.document rt)) := by
    rw [canonicalPayload, canonicalPayload, hrt.dumps, hrt.dumps]
    refine ⟨fun h => Json.print_injective (String.ofList_injective h), fun h => ?_⟩
    exact congrArg (fun json : Json => String.ofList json.print) h
  rw [hjson, JsonEncoder.json, JsonEncoder.json, JsonEncoder.jsonEntries_eq,
    JsonEncoder.jsonEntries_eq]
  -- The keys stand in one order in both documents.
  simp [AuditFields.document, sortBy, JsonEncoder.json]
  tauto

/-- What is read back is written as it was hashed exactly when it was given as the columns spell
it. -/
theorem canonicalPayload_row_iff (henc : encoder.Faithful) (hrt : rt.Encodes encoder)
    (hreads : rt.ReadsBack column) {db : AuditDb} {args : AppendArgs} (hjson : args.IsJson)
    (hrow : rt.stored (db.draft rt args draws) = some row) :
    canonicalPayload rt row.toAuditFields =
        canonicalPayload rt (db.draft rt args draws).toAuditFields ↔
      args.Canonical column := by
  obtain ⟨actor, subject, payload, hactor, hsubject, hpayload, rfl⟩ :=
    AuditRuntime.stored_eq_some hrow
  cases hreads _ _ hjson.actor hactor
  cases hreads _ _ hjson.subject hsubject
  cases hreads _ _ hjson.payload hpayload
  refine (canonicalPayload_with_iff hrt (db.draft rt args draws).toAuditFields _ _ _ _).trans ?_
  rw [hrt.isoformat_injective.eq_iff, Datetime.timestamptz_eq_self_iff, column.dict_document,
    column.dict_document, column.dict_document]
  have hmoment : (args.occurredAt.getD ⟨draws.now, some 0⟩).utcoffset = some 0 ↔
      ∀ moment ∈ args.occurredAt, moment.utcoffset = some 0 := by
    cases args.occurredAt with
    | none => exact iff_of_true rfl fun _ h => by cases h
    | some moment => exact ⟨fun h _ hmem => Option.some.inj hmem ▸ h, fun h => h moment rfl⟩
  constructor
  · rintro ⟨hoccurred, ha, hs, hp⟩
    exact ⟨hmoment.mp hoccurred, (JsonbColumn.json_readBack_iff henc hjson.actor).mp ha,
      (JsonbColumn.json_readBack_iff henc hjson.subject).mp hs, (JsonbColumn.json_readBack_iff henc hjson.payload).mp hp⟩
  · intro h
    exact ⟨hmoment.mpr h.occurredAt, (JsonbColumn.json_readBack_iff henc hjson.actor).mpr h.actor,
      (JsonbColumn.json_readBack_iff henc hjson.subject).mpr h.subject,
      (JsonbColumn.json_readBack_iff henc hjson.payload).mpr h.payload⟩

/-- The digest tells what the call's record is hashed over from what is read back. -/
def TellsApart (rt : AuditRuntime) (db : AuditDb) (call : AuditCall) : Prop :=
  ∀ row, rt.stored (db.draft rt call.args call.draws) = some row →
    rt.CollisionFree [row] [db.draft rt call.args call.draws]

theorem hashed_row_iff (henc : encoder.Faithful) (hrt : rt.Encodes encoder)
    (hreads : rt.ReadsBack column) {db : AuditDb} {call : AuditCall} (hjson : call.args.IsJson)
    (hsha : TellsApart rt db call)
    (hrow : rt.stored (db.draft rt call.args call.draws) = some row) :
    row.Hashed rt ↔ call.args.Canonical column := by
  rw [← canonicalPayload_row_iff henc hrt hreads hjson hrow]
  have hhash : row.hash = computeHash rt (db.draft rt call.args call.draws).toAuditFields := by
    obtain ⟨_, _, _, -, -, -, rfl⟩ := AuditRuntime.stored_eq_some hrow
    rfl
  rw [AuditRecord.Hashed, hhash, computeHash, computeHash, String.append_right_inj]
  refine ⟨fun h => ?_, congrArg rt.sha256⟩
  exact hsha row hrow row List.mem_cons_self _ List.mem_cons_self h

/-! ## A run of calls -/

namespace AuditDb

variable {db : AuditDb}

/-- Every record hashes to what it stores. -/
def AllHashed (rt : AuditRuntime) (db : AuditDb) : Prop := ∀ record ∈ db.records, record.Hashed rt

theorem takes_of_append {call : AuditCall} (h : db.append rt call.args call.draws = some db') :
    db.Takes rt call := by
  unfold append at h
  obtain ⟨row, hrow, h⟩ := Option.bind_eq_some_iff.mp h
  split at h
  · cases h
  · rename_i hcolumns
    rw [not_or, not_not] at hcolumns
    unfold AuditRuntime.stored at hrow
    obtain ⟨actor, hactor, hrow⟩ := Option.bind_eq_some_iff.mp hrow
    obtain ⟨subject, hsubject, hrow⟩ := Option.bind_eq_some_iff.mp hrow
    obtain ⟨payload, hpayload, hrow⟩ := Option.bind_eq_some_iff.mp hrow
    split at hrow
    · rename_i hevent
      cases hrow
      exact ⟨Option.isSome_of_mem hactor, Option.isSome_of_mem hsubject,
        Option.isSome_of_mem hpayload, hevent, hcolumns.1, hcolumns.2⟩
    · cases hrow

theorem append_of_takes {call : AuditCall} (h : db.Takes rt call) :
    ∃ db', db.append rt call.args call.draws = some db' := by
  obtain ⟨actor, hactor⟩ := Option.isSome_iff_exists.mp h.actor
  obtain ⟨subject, hsubject⟩ := Option.isSome_iff_exists.mp h.subject
  obtain ⟨payload, hpayload⟩ := Option.isSome_iff_exists.mp h.payload
  have hrow : ∃ row, rt.stored (db.draft rt call.args call.draws) = some row ∧
      row.id = newAuditId call.draws.hex ∧ row.tenantId = call.args.tenantId := by
    refine ⟨{ db.draft rt call.args call.draws with
      occurredAt := (db.draft rt call.args call.draws).occurredAt.timestamptz, actor := actor,
      subject := subject, payload := payload }, ?_, rfl, rfl⟩
    refine Option.bind_eq_some_iff.mpr ⟨actor, hactor, ?_⟩
    refine Option.bind_eq_some_iff.mpr ⟨subject, hsubject, ?_⟩
    refine Option.bind_eq_some_iff.mpr ⟨payload, hpayload, ?_⟩
    exact if_pos h.eventType
  obtain ⟨row, hrow, hid, htenant⟩ := hrow
  refine ⟨{ db with records := db.records ++ [row] }, ?_⟩
  refine Option.bind_eq_some_iff.mpr ⟨row, hrow, if_neg ?_⟩
  rw [hid, htenant, not_or, not_not]
  exact ⟨h.id, h.tenantId⟩

/-- A call leaves every record with its hash exactly when it found them so, and what it writes is
given as the columns spell it. -/
theorem allHashed_step_iff (henc : encoder.Faithful) (hrt : rt.Encodes encoder)
    (hreads : rt.ReadsBack column) {call : AuditCall} (hjson : call.args.IsJson)
    (hsha : TellsApart rt db call) (hstep : db.step rt call = some db') :
    db'.AllHashed rt ↔
      db.AllHashed rt ∧ (db.Takes rt call → call.args.Canonical column) := by
  rw [step_eq] at hstep
  cases hstep
  cases happend : db.append rt call.args call.draws with
  | none =>
    have hrefused (h : db.Takes rt call) : call.args.Canonical column := by
      obtain ⟨db', h⟩ := append_of_takes h
      cases happend.symm.trans h
    exact (and_iff_left hrefused).symm
  | some db' =>
    obtain ⟨row, hrow, -, rfl⟩ := append_eq_some happend
    have hnew : row.Hashed rt ↔ (db.Takes rt call → call.args.Canonical column) := by
      rw [hashed_row_iff henc hrt hreads hjson hsha hrow]
      exact ⟨fun h _ => h, fun h => h (takes_of_append happend)⟩
    rw [Option.getD_some, AllHashed, List.forall_mem_append, List.forall_mem_singleton, hnew]
    rfl

end AuditDb

/-- Every record hashes to what it stores, after every run, exactly when each call whose record the
columns took gave it as they spell it. Then the verifier reports no record as altered: what it
reports is a record that does not follow the one before it. -/
theorem hashes_survive_iff {rt : AuditRuntime} {encoder : JsonEncoder} {column : JsonbColumn}
    (henc : encoder.Faithful) (hrt : rt.Encodes encoder) (hreads : rt.ReadsBack column)
    (hjson : ∀ call ∈ calls, call.args.IsJson)
    (hsha : Along (AuditDb.step rt) (TellsApart rt) { tenants := tenants } calls)
    (hrun : run (AuditDb.step rt) { tenants := tenants } calls = some db) :
    ((∀ record ∈ db.records, computeHash rt record.toAuditFields = record.hash) ↔
      Along (AuditDb.step rt) (fun db call => db.Takes rt call → call.args.Canonical column)
        { tenants := tenants } calls) ∧
    ((∀ record ∈ db.records, computeHash rt record.toAuditFields = record.hash) →
      ∀ tenantId, (db.verify rt tenantId).ok = false → ∃ index record,
        (db.inOrder tenantId)[index]? = some record ∧
          (db.verify rt tenantId).brokenAt = some record.id ∧
          record.prevHash ≠ lastHash AuditRecord.hash genesis
            ((db.inOrder tenantId).take index)) := by
  constructor
  · have hguard : Along (AuditDb.step rt) (fun db call => call.args.IsJson ∧ TellsApart rt db call)
        { tenants := tenants } calls :=
      (along_of_forall fun call hcall _ => hjson call hcall).and hsha
    have hiff := run_iff_along (P := AuditDb.AllHashed rt)
      (fun _ _ _ h => AuditDb.allHashed_step_iff henc hrt hreads h.1 h.2) hguard hrun
    have hstart : AuditDb.AllHashed rt { tenants := tenants } :=
      fun _ h => absurd h List.not_mem_nil
    exact hiff.trans (and_iff_right hstart)
  · intro hhashed tenantId hfailed
    rcases verifyChainFrom_spec rt genesis 0 (db.inOrder tenantId) with
      ⟨hok, -⟩ | ⟨index, record, ⟨hrecord, hwrong, -⟩, -, -, hbroken⟩
    · cases hok.symm.trans hfailed
    · refine ⟨index, record, hrecord, hbroken, fun hprev => hwrong ⟨hprev, ?_⟩⟩
      have hmem : record ∈ db.inOrder tenantId := List.mem_of_getElem? hrecord
      exact hhashed record (List.mem_filter.mp (mem_sortBy.mp hmem)).1

/-! ## A float without a point -/

/-- A runtime whose digest of a text is the text. -/
def postgresAudit : AuditRuntime :=
  { textAudit with jsonb := fun document => some (postgresJsonb.document document) }

theorem postgresAudit_encodes : postgresAudit.Encodes plainEncoder where
  dumps := textAudit_encodes.dumps
  isoformat_injective := textAudit_encodes.isoformat_injective

theorem postgresAudit_readsBack : postgresAudit.ReadsBack postgresJsonb :=
  fun _ _ _ h => (Option.some.inj h).symm

/-- What is appended when a list of one value is created. -/
def listCreated (value : Value) (occurredAt : Option Datetime) : AuditCall :=
  .append
    { tenantId := "tnt_audit", eventType := "list.created",
      actor := .ofList [("type", .str "user"), ("id", .str "usr_1")],
      subject := .ofList [("type", .str "named_list"), ("id", .str "risky")],
      payload := some (.ofList [("values", .list [value]), ("ruleset_version", .int 1)]),
      occurredAt := occurredAt }
    ⟨0, "a0", 5⟩

/-- A float of one comes back as it was written. -/
theorem hashes_survive_iff_one :
    ∃ db, run (AuditDb.step postgresAudit) { tenants := ["tnt_audit"] }
        [listCreated (.float 1) none] = some db ∧
      ∀ record ∈ db.records, computeHash postgresAudit record.toAuditFields = record.hash := by
  have hrun : ∃ db, run (AuditDb.step postgresAudit) { tenants := ["tnt_audit"] }
      [listCreated (.float 1) none] = some db := ⟨_, rfl⟩
  obtain ⟨db, hrun⟩ := hrun
  refine ⟨db, hrun, (hashes_survive_iff plainEncoder_faithful postgresAudit_encodes
    postgresAudit_readsBack ?_ (along_of_forall fun _ _ _ _ _ _ _ _ _ h => h) hrun).1.mpr
      (along_of_forall fun call hcall _ _ => ?_)⟩
  · refine List.forall_mem_singleton.mpr ⟨⟨rfl, ?_⟩, ⟨rfl, ?_⟩, ⟨rfl, ?_⟩⟩
    all_goals decide
  · cases List.mem_singleton.mp hcall
    refine ⟨fun _ hmoment => absurd hmoment (Option.not_mem_none _), ?_, ?_, ?_⟩
    all_goals decide

/-- The only record of a chain is reported as altered when it was not given as the columns spell
it. -/
theorem brokenAt_listCreated (hjson : (listCreated value occurredAt).args.IsJson)
    (hcanonical : ¬ (listCreated value occurredAt).args.Canonical postgresJsonb) :
    ∃ db, run (AuditDb.step postgresAudit) { tenants := ["tnt_audit"] }
        [listCreated value occurredAt] = some db ∧
      (db.verify postgresAudit "tnt_audit").brokenAt = some "aud_a0" := by
  have hevent : "list.created".length ≤ 64 := by decide
  have htakes : AuditDb.Takes postgresAudit { tenants := ["tnt_audit"] }
      (listCreated value occurredAt) :=
    ⟨rfl, rfl, rfl, hevent, List.not_mem_nil, List.mem_singleton_self _⟩
  obtain ⟨db, happend⟩ := AuditDb.append_of_takes htakes
  have hrun : run (AuditDb.step postgresAudit) { tenants := ["tnt_audit"] }
      [listCreated value occurredAt] = some db := by
    rw [run, AuditDb.step_eq, happend]
    rfl
  obtain ⟨row, hrow, -, rfl⟩ := AuditDb.append_eq_some happend
  obtain ⟨hid, htenant, hprev⟩ :
      row.id = "aud_a0" ∧ row.tenantId = "tnt_audit" ∧ row.prevHash = genesis := by
    obtain ⟨_, _, _, -, -, -, rfl⟩ := AuditRuntime.stored_eq_some hrow
    exact ⟨rfl, rfl, rfl⟩
  have horder : AuditDb.inOrder { tenants := ["tnt_audit"], records := [row] } "tnt_audit" =
      [row] := by
    simp [AuditDb.inOrder, AuditDb.recordsOf, htenant, sortBy]
  have hhashed : ¬ computeHash postgresAudit row.toAuditFields = row.hash := by
    rwa [← AuditRecord.Hashed, hashed_row_iff plainEncoder_faithful postgresAudit_encodes
      postgresAudit_readsBack hjson (fun _ _ _ _ _ _ h => h) hrow]
  refine ⟨_, hrun, ?_⟩
  rw [AuditDb.verify, List.nil_append, horder, verifyChain, verifyChainFrom,
    if_neg (not_not.mpr hprev), if_pos hhashed, hid]

/-- A list with `1e16` or with `-0.0`, and a moment given at an offset of one hour: the record is
reported as altered when nothing has touched it. -/
theorem hashes_lost :
    (∃ db, run (AuditDb.step postgresAudit) { tenants := ["tnt_audit"] }
        [listCreated (.float 10000000000000000) none] = some db ∧
      (db.verify postgresAudit "tnt_audit").brokenAt = some "aud_a0") ∧
    (∃ db, run (AuditDb.step postgresAudit) { tenants := ["tnt_audit"] }
        [listCreated .negativeZero none] = some db ∧
      (db.verify postgresAudit "tnt_audit").brokenAt = some "aud_a0") ∧
    ∃ db, run (AuditDb.step postgresAudit) { tenants := ["tnt_audit"] }
        [listCreated (.str "m1") (some ⟨3600000000, some 3600000000⟩)] = some db ∧
      (db.verify postgresAudit "tnt_audit").brokenAt = some "aud_a0" := by
  refine ⟨?_, ?_, ?_⟩
  · refine brokenAt_listCreated ⟨⟨rfl, by decide⟩, ⟨rfl, by decide⟩, ⟨rfl, by decide⟩⟩ fun h => ?_
    have hkeeps : postgresJsonb.Keeps (.float 10000000000000000) := h.payload _ (.tail _ (.tail _ (.head _)))
    exact absurd hkeeps (by decide)
  · refine brokenAt_listCreated ⟨⟨rfl, by decide⟩, ⟨rfl, by decide⟩, ⟨rfl, by decide⟩⟩ fun h => ?_
    exact h.payload .negativeZero (.tail _ (.tail _ (.head _)))
  · refine brokenAt_listCreated ⟨⟨rfl, by decide⟩, ⟨rfl, by decide⟩, ⟨rfl, by decide⟩⟩ fun h => ?_
    exact absurd (h.occurredAt _ rfl) (by decide)

end ComplyLayer
