import ComplyLayer.Verify.Anchoring
import Mathlib.Logic.Function.Basic

/-!
# Checkpoints while others append

`write_checkpoint` counts the records in one statement and reads the last one in another, and an
append of the tenant can commit between them. A chain nobody touched is never reported as broken
after a run in which none does (`never_broken`); where one does, the signature covers a length and
a hash that no start of the chain has (`append_between_breaks`).
-/

namespace ComplyLayer

open Theory

/-! ## The call, a statement at a time -/

/-- How far a call has come. -/
inductive CheckpointProgress where
  | counted (args : CheckpointArgs) (length : Nat)
  | headed (args : CheckpointArgs) (length : Nat) (headHash : String)
  | signed (row : AuditCheckpoint)

/-- A call to the audit trail, or the next statement of a worker's `write_checkpoint`. -/
inductive CheckpointPhase where
  | call (call : AuditCall)
  | count (worker : Nat) (args : CheckpointArgs)
  | last (worker : Nat)
  | sign (worker : Nat)
  | store (worker : Nat)

/-- The tables, with what every worker's call holds. -/
structure Checkpointing where
  db : AnchoredDb
  progress : Nat → Option CheckpointProgress := fun _ => none

namespace Checkpointing

def put (s : Checkpointing) (worker : Nat) (progress : Option CheckpointProgress) : Checkpointing :=
  { s with progress := Function.update s.progress worker progress }

@[simp] theorem put_db (s : Checkpointing) (worker : Nat) (progress : Option CheckpointProgress) :
    (s.put worker progress).db = s.db := rfl

@[simp] theorem put_progress_self (s : Checkpointing) (worker : Nat)
    (held : Option CheckpointProgress) : (s.put worker held).progress worker = held :=
  Function.update_self _ _ _

theorem put_progress_eq_some {s : Checkpointing} {held : Option CheckpointProgress}
    (h : (s.put worker held).progress other = some p) :
    held = some p ∨ s.progress other = some p := by
  by_cases heq : other = worker
  · subst heq
    have hheld : Function.update s.progress other held other = some p := h
    rw [Function.update_self] at hheld
    exact .inl hheld
  · have hheld : Function.update s.progress worker held other = some p := h
    rw [Function.update_of_ne heq] at hheld
    exact .inr hheld

/-- One statement. A call that returns or raises holds nothing any more. -/
def step (rt : CheckpointRuntime) (s : Checkpointing) : CheckpointPhase → Option Checkpointing
  | .call call =>
    (s.db.toAuditDb.step rt.toAuditRuntime call).map fun db =>
      { s with db := { s.db with toAuditDb := db } }
  | .count worker args =>
    match s.progress worker with
    | some _ => none
    | none =>
      if (s.db.recordsOf args.tenantId).length = 0 then some s
      else some (s.put worker (some (.counted args (s.db.recordsOf args.tenantId).length)))
  | .last worker =>
    match s.progress worker with
    | some (.counted args length) =>
      some (s.put worker ((s.db.tail args.tenantId).map fun head => .headed args length head.hash))
    | _ => none
  | .sign worker =>
    match s.progress worker with
    | some (.headed args length headHash) =>
      some (s.put worker ((AnchoredDb.signHead rt args length headHash).toOption.map .signed))
    | _ => none
  | .store worker =>
    match s.progress worker with
    | some (.signed row) =>
      some { s.put worker none with db := (s.db.createCheckpoint row).getD s.db }
    | _ => none

/-- With nothing in between, the statements are the call. -/
theorem run_uninterrupted {rt : CheckpointRuntime} {s : Checkpointing}
    (hidle : s.progress worker = none) (h : s.db.signCheckpoint rt args = .ok (some row)) :
    ∃ t, run (step rt) s [.count worker args, .last worker, .sign worker, .store worker] = some t ∧
      t.db = (s.db.writeCheckpoint rt args).1 := by
  obtain ⟨hlength, head, hhead, hsign⟩ := AnchoredDb.signCheckpoint_steps h
  let counted := s.put worker (some (.counted args (s.db.recordsOf args.tenantId).length))
  let headed := counted.put worker
    (some (.headed args (s.db.recordsOf args.tenantId).length head.hash))
  let signed := headed.put worker (some (.signed row))
  have hcount : s.step rt (.count worker args) = some counted := by
    simp only [step, hidle, if_neg hlength, counted]
  have hlast : counted.step rt (.last worker) = some headed := by
    simp only [step, counted, put_progress_self, put_db, hhead, Option.map_some, headed]
  have hsigned : headed.step rt (.sign worker) = some signed := by
    simp only [step, headed, put_progress_self, hsign, Except.toOption, Option.map_some, signed]
  have hstore : signed.step rt (.store worker) = some
      { signed.put worker none with db := (s.db.createCheckpoint row).getD s.db } := by
    simp only [step, signed, put_progress_self]
    rfl
  refine ⟨_, run_cons_eq_some.mpr ⟨_, hcount, run_cons_eq_some.mpr ⟨_, hlast,
    run_cons_eq_some.mpr ⟨_, hsigned, run_cons_eq_some.mpr ⟨_, hstore, rfl⟩⟩⟩⟩, ?_⟩
  rw [AnchoredDb.writeCheckpoint, h]
  cases hcreate : s.db.createCheckpoint row with
  | none => simp only [Option.getD_none, hcreate]
  | some db => simp only [Option.getD_some, hcreate]

/-- A call comes after every record of the tenant. -/
def Ticks (tenantId : String) (s : Checkpointing) : CheckpointPhase → Prop
  | .call call => call.args.tenantId = tenantId →
      ∀ record ∈ s.db.recordsOf tenantId, record.recordedAt < call.draws.recordedAt
  | _ => True

/-- A checkpoint of the tenant is dated in UTC, and the tenant has the records that were counted
when the last one is read. -/
def Undisturbed (tenantId : String) (s : Checkpointing) : CheckpointPhase → Prop
  | .count _ args => args.tenantId = tenantId → args.moment.timestamptz = args.moment
  | .last worker => ∀ args length, s.progress worker = some (.counted args length) →
      args.tenantId = tenantId → (s.db.recordsOf tenantId).length = length
  | _ => True

end Checkpointing

/-- What the private key signs verifies against the public key. -/
def CheckpointRuntime.KeyPair (rt : CheckpointRuntime) (privatePem publicPem : String) : Prop :=
  ∃ privateKey publicKey, rt.loadPemPrivateKey privatePem = .ok (some privateKey) ∧
    rt.loadPemPublicKey publicPem = .ok (some publicKey) ∧
    ∀ message, rt.verify publicKey (rt.sign privateKey message) message = true

/-! ## What every statement keeps -/

/-- A checkpoint of a start of a chain is one of every longer chain. -/
theorem AuditCheckpoint.Heads.append {row : AuditCheckpoint} (h : row.Heads chain)
    (more : List AuditRecord) : row.Heads (chain ++ more) := by
  obtain ⟨before, after, rfl, hne, hlength, hhash⟩ := h
  exact ⟨before, after ++ more, List.append_assoc _ _ _, hne, hlength, hhash⟩

/-- What a call holds is right of the tenant's chain. -/
def CheckpointProgress.RightOf (rt : CheckpointRuntime) (publicPem tenantId : String)
    (chain : List AuditRecord) : CheckpointProgress → Prop
  | .counted args length => args.tenantId = tenantId →
      args.moment.timestamptz = args.moment ∧ rt.KeyPair args.privatePem publicPem ∧ length ≠ 0
  | .headed args length headHash => args.tenantId = tenantId →
      args.moment.timestamptz = args.moment ∧ rt.KeyPair args.privatePem publicPem ∧
        AuditCheckpoint.Heads ⟨⟨tenantId, length, headHash, args.moment⟩, ""⟩ chain
  | .signed row => row.tenantId = tenantId →
      row.signedAt.timestamptz = row.signedAt ∧ row.Verifies rt publicPem ∧ row.Heads chain

theorem CheckpointProgress.RightOf.append {p : CheckpointProgress}
    (h : p.RightOf rt publicPem tenantId chain) (more : List AuditRecord) : p.RightOf rt publicPem tenantId (chain ++ more) := by
  cases p with
  | counted args length => exact h
  | headed args length headHash =>
    exact fun htenant => ⟨(h htenant).1, (h htenant).2.1, (h htenant).2.2.append more⟩
  | signed row =>
    exact fun htenant => ⟨(h htenant).1, (h htenant).2.1, (h htenant).2.2.append more⟩

namespace Checkpointing

/-- The tenant's records are in the order of writing, and every checkpoint of it, stored or under
way, is one of a start of its chain. -/
structure Truthful (rt : CheckpointRuntime) (publicPem tenantId : String) (s : Checkpointing) :
    Prop where
  ordered : (s.db.recordsOf tenantId).Pairwise fun r r' => r.position < r'.position
  rows : ∀ row ∈ s.db.checkpoints, row.tenantId = tenantId →
    row.Verifies rt publicPem ∧ row.Heads (s.db.recordsOf tenantId)
  progress : ∀ worker p, s.progress worker = some p →
    p.RightOf rt publicPem tenantId (s.db.recordsOf tenantId)

variable {rt : CheckpointRuntime} {publicPem tenantId : String} {s s' : Checkpointing}

theorem Truthful.put {held : Option CheckpointProgress} (h : s.Truthful rt publicPem tenantId)
    (hp : ∀ p, held = some p → p.RightOf rt publicPem tenantId (s.db.recordsOf tenantId)) :
    (s.put worker held).Truthful rt publicPem tenantId where
  ordered := h.ordered
  rows := h.rows
  progress other p hother := (put_progress_eq_some hother).elim (hp p) (h.progress other p)

/-- More records of the tenant, after those it has. -/
theorem Truthful.grow {more : List AuditRecord} (h : s.Truthful rt publicPem tenantId)
    (hrecords : s'.db.recordsOf tenantId = s.db.recordsOf tenantId ++ more)
    (hcheckpoints : s'.db.checkpoints = s.db.checkpoints) (hprogress : s'.progress = s.progress)
    (hordered : (s.db.recordsOf tenantId ++ more).Pairwise fun r r' => r.position < r'.position) :
    s'.Truthful rt publicPem tenantId := by
  refine ⟨?_, fun row hrow htenant => ?_, fun worker p hp => ?_⟩
  · rw [hrecords]
    exact hordered
  · rw [hcheckpoints] at hrow
    obtain ⟨hverifies, hheads⟩ := h.rows row hrow htenant
    rw [hrecords]
    exact ⟨hverifies, hheads.append more⟩
  · rw [hprogress] at hp
    rw [hrecords]
    exact (h.progress worker p hp).append more

theorem truthful_call (h : s.Truthful rt publicPem tenantId) (hticks : s.Ticks tenantId (.call call))
    (hstep : s.step rt (.call call) = some s') : s'.Truthful rt publicPem tenantId := by
  rw [step, AuditDb.step_eq] at hstep
  cases hstep
  cases happend : s.db.toAuditDb.append rt.toAuditRuntime call.args call.draws with
  | none => exact h
  | some db =>
    obtain ⟨row, hrow, -, rfl⟩ := AuditDb.append_eq_some happend
    by_cases htenant : call.args.tenantId = tenantId
    · refine h.grow ((AuditDb.recordsOf_append hrow).trans (if_pos htenant)) rfl rfl ?_
      rw [List.pairwise_append]
      refine ⟨h.ordered, List.pairwise_singleton _ _, fun record hrecord new hnew => ?_⟩
      cases List.mem_singleton.mp hnew
      have hlater := hticks htenant record hrecord
      obtain ⟨actor, subject, payload, -, -, -, rfl⟩ := AuditRuntime.stored_eq_some hrow
      exact Prod.Lex.toLex_lt_toLex.mpr (.inl hlater)
    · have hrecords := (AuditDb.recordsOf_append hrow).trans (if_neg htenant)
      refine h.grow (hrecords.trans (List.append_nil _).symm) rfl rfl ?_
      rw [List.append_nil]
      exact h.ordered

theorem truthful_count (h : s.Truthful rt publicPem tenantId)
    (hkeys : args.tenantId = tenantId → rt.KeyPair args.privatePem publicPem)
    (hutc : s.Undisturbed tenantId (.count worker args))
    (hstep : s.step rt (.count worker args) = some s') : s'.Truthful rt publicPem tenantId := by
  rw [step] at hstep
  split at hstep
  · cases hstep
  split at hstep
  · cases hstep
    exact h
  · rename_i hlength
    cases hstep
    refine h.put fun p hp => ?_
    cases hp
    exact fun htenant => ⟨hutc htenant, hkeys htenant, hlength⟩

/-- The last record of a chain in order, of as many as were counted. -/
theorem truthful_last (h : s.Truthful rt publicPem tenantId)
    (hcount : s.Undisturbed tenantId (.last worker))
    (hstep : s.step rt (.last worker) = some s') : s'.Truthful rt publicPem tenantId := by
  rw [step] at hstep
  split at hstep
  · rename_i args length hcounted
    cases hstep
    refine h.put fun p hp => ?_
    obtain ⟨head, hhead, rfl⟩ := Option.map_eq_some_iff.mp hp
    rintro rfl
    obtain ⟨hutc, hkeys, -⟩ := h.progress worker _ hcounted rfl
    refine ⟨hutc, hkeys, s.db.recordsOf args.tenantId, [], (List.append_nil _).symm, ?_, ?_, ?_⟩
    · intro hnil
      rw [AuditDb.tail, hnil] at hhead
      cases hhead
    · exact congrArg Int.ofNat (hcount args length hcounted rfl).symm
    · rw [AuditDb.tail, head?_sortBy_toDual h.ordered] at hhead
      rw [lastHash, hhead]
      rfl
  · cases hstep

theorem truthful_sign (h : s.Truthful rt publicPem tenantId)
    (hstep : s.step rt (.sign worker) = some s') : s'.Truthful rt publicPem tenantId := by
  rw [step] at hstep
  split at hstep
  · rename_i args length headHash hheaded
    cases hstep
    refine h.put fun p hp => ?_
    obtain ⟨row, hrow, rfl⟩ := Option.map_eq_some_iff.mp hp
    cases hsign : AnchoredDb.signHead rt args length headHash with
    | error raised =>
      rw [hsign] at hrow
      cases hrow
    | ok signed =>
      rw [hsign] at hrow
      cases hrow
      obtain ⟨hfields, key, hload, hsignature⟩ := AnchoredDb.signHead_eq_ok hsign
      intro htenant
      have htenantArgs : args.tenantId = tenantId := by
        rw [← htenant, hfields]
      obtain ⟨hutc, ⟨privateKey, publicKey, hprivate, hpublic, hverify⟩, hheads⟩ :=
        h.progress worker _ hheaded htenantArgs
      have hkey : key = privateKey := by
        cases hload.symm.trans hprivate
        rfl
      refine ⟨?_, AuditCheckpoint.verifies_of_verify hpublic ?_, ?_⟩
      · rw [hfields]
        exact hutc
      · rw [hsignature, hkey]
        exact hverify _
      · obtain ⟨before, after, hchain, hne, hlength, hhash⟩ := hheads
        refine ⟨before, after, hchain, hne, ?_, ?_⟩
        · rw [hfields]
          exact hlength
        · rw [hfields]
          exact hhash
  · cases hstep

theorem truthful_store (h : s.Truthful rt publicPem tenantId)
    (hstep : s.step rt (.store worker) = some s') : s'.Truthful rt publicPem tenantId := by
  rw [step] at hstep
  split at hstep
  · rename_i row hsigned
    cases hstep
    have hidle : (s.put worker none).Truthful rt publicPem tenantId := h.put fun _ hp => by cases hp
    rw [AnchoredDb.createCheckpoint]
    split
    · refine ⟨h.ordered, fun other hother htenant => ?_, hidle.progress⟩
      rcases List.mem_append.mp hother with hold | hnew
      · exact h.rows other hold htenant
      · cases List.mem_singleton.mp hnew
        obtain ⟨hutc, hverifies, hheads⟩ := h.progress worker _ hsigned htenant
        rw [hutc]
        exact ⟨hverifies, hheads⟩
    · exact hidle
  · cases hstep

theorem truthful_step (s : Checkpointing) (phase : CheckpointPhase) (s' : Checkpointing)
    (h : s.Truthful rt publicPem tenantId)
    (hguard : (s.Ticks tenantId phase ∧ s.Undisturbed tenantId phase) ∧
      ∀ worker args, phase = .count worker args → args.tenantId = tenantId →
        rt.KeyPair args.privatePem publicPem)
    (hstep : s.step rt phase = some s') : s'.Truthful rt publicPem tenantId := by
  obtain ⟨⟨hticks, hundisturbed⟩, hkeys⟩ := hguard
  cases phase with
  | call call => exact truthful_call h hticks hstep
  | count worker args => exact truthful_count h (hkeys worker args rfl) hundisturbed hstep
  | last worker => exact truthful_last h hundisturbed hstep
  | sign worker => exact truthful_sign h hstep
  | store worker => exact truthful_store h hstep

end Checkpointing

/-! ## Reports on a chain nobody touched -/

theorem latestCheckpoint_eq_none {rt : CheckpointRuntime} {db : AnchoredDb}
    (h : db.latestCheckpoint rt tenantId = none) :
    ∀ row ∈ db.checkpoints, row.tenantId ≠ tenantId := by
  intro row hrow htenant
  rw [AnchoredDb.latestCheckpoint, List.head?_eq_none_iff] at h
  have hmem : row ∈ sortBy (fun row => OrderDual.toDual row.chainLength)
      (rt.scan (db.checkpoints.filter fun row => row.tenantId = tenantId)) := by
    rw [mem_sortBy, (rt.scan_perm _).mem_iff, List.mem_filter, decide_eq_true_iff]
    exact ⟨hrow, htenant⟩
  rw [h] at hmem
  exact absurd hmem List.not_mem_nil

/-- After every run in which no append of the tenant commits between the two reads of a checkpoint
of it, and those are dated in UTC, the chain is anchored from the first checkpoint on. -/
theorem never_broken {rt : CheckpointRuntime} (hpublic : publicPem ≠ "")
    (hkeys : ∀ worker args, .count worker args ∈ phases → args.tenantId = tenantId →
      rt.KeyPair args.privatePem publicPem)
    (hrun : run (Checkpointing.step rt) { db := { tenants := tenants } } phases = some s)
    (hticks : Along (Checkpointing.step rt) (Checkpointing.Ticks tenantId)
      { db := { tenants := tenants } } phases)
    (hundisturbed : Along (Checkpointing.step rt) (Checkpointing.Undisturbed tenantId)
      { db := { tenants := tenants } } phases) :
    ∃ result, s.db.verifyAnchoring rt tenantId (some publicPem) = .ok result ∧
      result.anchoring ≠ .broken ∧
      ((∃ row ∈ s.db.checkpoints, row.tenantId = tenantId) → result.anchoring = .signed) := by
  have hpairs : Along (Checkpointing.step rt) (fun _ phase => ∀ worker args,
      phase = .count worker args → args.tenantId = tenantId →
        rt.KeyPair args.privatePem publicPem) { db := { tenants := tenants } } phases :=
    along_of_forall fun phase hphase _ worker args hcount => hkeys worker args (hcount ▸ hphase)
  have hstart : Checkpointing.Truthful rt publicPem tenantId { db := { tenants := tenants } } :=
    ⟨.nil, fun _ h => absurd h List.not_mem_nil, fun _ _ h => by cases h⟩
  have htruthful := ((hticks.and hundisturbed).and hpairs).invariant Checkpointing.truthful_step
    hstart hrun
  cases hlatest : s.db.latestCheckpoint rt tenantId with
  | none =>
    have hnone : s.db.verifyAnchoring rt tenantId (some publicPem) =
        .ok { anchoring := .unanchored
              detail := "A key is configured but no checkpoint has been written yet." } := by
      simp only [AnchoredDb.verifyAnchoring, Option.getD_some, if_neg hpublic, hlatest]
    refine ⟨_, hnone, by simp, ?_⟩
    rintro ⟨row, hrow, htenant⟩
    exact absurd htenant (latestCheckpoint_eq_none hlatest row hrow)
  | some latest =>
    obtain ⟨⟨hmem, htenant⟩, -⟩ := latestCheckpoint_eq_some hlatest
    obtain ⟨hverifies, hheads⟩ := htruthful.rows latest hmem htenant
    have horder : s.db.inOrder tenantId = s.db.recordsOf tenantId :=
      sortBy_eq_self (htruthful.ordered.imp le_of_lt)
    obtain ⟨result, hresult, hsigned⟩ := verifyAnchoring_signed_iff.mpr
      ⟨hpublic, latest, hlatest, hverifies, horder ▸ hheads⟩
    refine ⟨result, hresult, ?_, fun _ => hsigned⟩
    rw [hsigned]
    simp

/-! ## An append between the two reads -/

theorem textAnchor_keyPair : textAnchor.KeyPair "private" "public" := by
  have hverify (signature message : String) :
      textAnchor.verify "public" signature message = decide (signature = message) := rfl
  refine ⟨"private", "public", rfl, rfl, fun message => ?_⟩
  rw [hverify]
  exact decide_eq_true rfl

/-- A checkpoint between two appends. -/
def checkpointBetween : List CheckpointPhase :=
  [.call (.append activated ⟨0, "a1", 1⟩), .count 0 nightly, .last 0, .sign 0, .store 0,
    .call (.append activated ⟨0, "a2", 2⟩)]

/-- The clock goes on between two appends, whatever else comes between and after them. -/
theorem ticks_of_appends {between : List CheckpointPhase} {s s' : Checkpointing}
    (hbetween : ∀ phase ∈ between, ∀ s, Checkpointing.Ticks "tnt_audit" s phase)
    (hfirst : s.db.recordsOf "tnt_audit" = [])
    (hrun : run (Checkpointing.step textAnchor) s
      (.call (.append activated ⟨0, "a1", 1⟩) :: between) = some s')
    (hsecond : s'.db.recordsOf "tnt_audit" = [recordA])
    (hafter : ∀ phase ∈ after, ∀ s, Checkpointing.Ticks "tnt_audit" s phase) :
    Along (Checkpointing.step textAnchor) (Checkpointing.Ticks "tnt_audit") s
      ((.call (.append activated ⟨0, "a1", 1⟩) :: between) ++
        .call (.append activated ⟨0, "a2", 2⟩) :: after) := by
  refine (along_append hrun).mpr ⟨⟨fun _ record hrecord => ?_, fun _ _ => along_of_forall hbetween⟩,
    fun _ record hrecord => ?_, fun _ _ => along_of_forall hafter⟩
  · rw [hfirst] at hrecord
    exact absurd hrecord List.not_mem_nil
  · rw [hsecond] at hrecord
    cases List.mem_singleton.mp hrecord
    decide

theorem never_broken_between : ∃ result,
    anchoredOnce.db.verifyAnchoring textAnchor "tnt_audit" (some "public") = .ok result ∧
      result.anchoring ≠ .broken ∧
      ((∃ row ∈ anchoredOnce.db.checkpoints, row.tenantId = "tnt_audit") →
        result.anchoring = .signed) := by
  have hrun : ∃ s, run (Checkpointing.step textAnchor) { db := { tenants := ["tnt_audit"] } }
      checkpointBetween = some s ∧ s.db = anchoredOnce.db := ⟨_, rfl, rfl⟩
  have hbefore : ∃ s, run (Checkpointing.step textAnchor) { db := { tenants := ["tnt_audit"] } }
      (checkpointBetween.take 5) = some s ∧ s.db.recordsOf "tnt_audit" = [recordA] :=
    ⟨_, rfl, rfl⟩
  have hcounted : ∃ s, run (Checkpointing.step textAnchor) { db := { tenants := ["tnt_audit"] } }
      (checkpointBetween.take 2) = some s ∧ s.progress 0 = some (.counted nightly 1) ∧
        (s.db.recordsOf "tnt_audit").length = 1 := ⟨_, rfl, rfl, rfl⟩
  obtain ⟨s, hrun, hdb⟩ := hrun
  obtain ⟨before, hbefore, hrecords⟩ := hbefore
  obtain ⟨counted, hcounted, hprogress, hlength⟩ := hcounted
  rw [← hdb]
  refine never_broken (by decide) (fun worker args hcount _ => ?_) hrun ?_ ?_
  · have hargs : args = nightly := by
      simp only [checkpointBetween, List.mem_cons, List.not_mem_nil, reduceCtorEq, or_false,
        false_or, CheckpointPhase.count.injEq] at hcount
      exact hcount.2
    rw [hargs]
    exact textAnchor_keyPair
  · refine ticks_of_appends ?_ rfl hbefore hrecords fun _ h => absurd h List.not_mem_nil
    simp only [List.take, List.forall_mem_cons]
    exact ⟨fun _ => trivial, fun _ => trivial, fun _ => trivial, fun _ => trivial,
      fun _ h => absurd h List.not_mem_nil⟩
  · refine (along_append hcounted).mpr ⟨⟨trivial, fun _ _ => ⟨fun _ => rfl, fun _ _ => trivial⟩⟩,
      fun args length hargs _ => ?_, fun _ _ => along_of_forall ?_⟩
    · cases hprogress.symm.trans hargs
      exact hlength
    · simp only [List.forall_mem_cons]
      exact ⟨fun _ => trivial, fun _ => trivial, fun _ => trivial,
        fun _ h => absurd h List.not_mem_nil⟩

theorem recordB_hash_ne : recordB.hash ≠ recordA.hash := by
  intro h
  have hpayload : canonicalPayload textAnchor.toAuditRuntime recordB.toAuditFields =
      canonicalPayload textAnchor.toAuditRuntime recordA.toAuditFields :=
    (String.append_right_inj _).mp h
  have hsame := same_of_canonicalPayload plainEncoder_faithful textAnchor_encodes ⟨rfl, rfl, rfl⟩
    ⟨rfl, rfl, rfl⟩ hpayload
  exact absurd hsame.id (by decide)

/-- One record was counted, and the second one was the last. -/
def misdated : AuditCheckpoint :=
  let fields : CheckpointFields :=
    { tenantId := "tnt_audit", chainLength := 1, headHash := recordB.hash, signedAt := ⟨0, some 0⟩ }
  { fields with signature := Checkpoint.canonicalCheckpoint textAnchor.toAuditRuntime fields }

/-- A second append commits between the two reads. -/
def appendBetween : List CheckpointPhase :=
  [.call (.append activated ⟨0, "a1", 1⟩), .count 0 nightly,
    .call (.append activated ⟨0, "a2", 2⟩), .last 0, .sign 0, .store 0]

theorem append_between_breaks : ∃ s,
    run (Checkpointing.step textAnchor) { db := { tenants := ["tnt_audit"] } } appendBetween =
        some s ∧
      Along (Checkpointing.step textAnchor) (Checkpointing.Ticks "tnt_audit")
        { db := { tenants := ["tnt_audit"] } } appendBetween ∧
      ∃ result, s.db.verifyAnchoring textAnchor "tnt_audit" (some "public") = .ok result ∧
        result.anchoring = .broken := by
  have hrun : ∃ s, run (Checkpointing.step textAnchor) { db := { tenants := ["tnt_audit"] } }
      appendBetween = some s ∧
        s.db = { tenants := ["tnt_audit"], records := [recordA, recordB],
                 checkpoints := [misdated] } := ⟨_, rfl, rfl⟩
  have hbefore : ∃ s, run (Checkpointing.step textAnchor) { db := { tenants := ["tnt_audit"] } }
      (appendBetween.take 2) = some s ∧ s.db.recordsOf "tnt_audit" = [recordA] := ⟨_, rfl, rfl⟩
  obtain ⟨s, hrun, hdb⟩ := hrun
  obtain ⟨before, hbefore, hrecords⟩ := hbefore
  refine ⟨s, hrun, ?_, ?_⟩
  · refine ticks_of_appends ?_ rfl hbefore hrecords ?_
    · exact List.forall_mem_singleton.mpr fun _ => trivial
    · simp only [List.forall_mem_cons]
      exact ⟨fun _ => trivial, fun _ => trivial, fun _ => trivial,
        fun _ h => absurd h List.not_mem_nil⟩
  · rw [hdb]
    have hverifies : misdated.Verifies textAnchor "public" := by
      obtain ⟨privateKey, publicKey, hprivate, hpublic, hverify⟩ := textAnchor_keyPair
      exact AuditCheckpoint.verifies_of_verify hpublic (hverify _)
    refine verifyAnchoring_broken (by decide) rfl hverifies (by decide) ?_
    rintro ⟨heading, rest, hchain, -, hlength, hhash⟩
    have hone : heading.length = 1 := Int.ofNat.inj hlength.symm
    obtain ⟨record, rfl⟩ := List.length_eq_one_iff.mp hone
    cases (List.cons.inj hchain).1
    exact recordB_hash_ne hhash

end ComplyLayer
