import ComplyLayer.Audit.Checkpoint
import ComplyLayer.Verify.ChainHistory

/-!
# What an anchored chain says about its past

`verify_anchoring` reads the longest checkpoint of the table. Records and checkpoints may be
inserted, altered and deleted between the calls, but not signed. A chain that verifies and is
anchored extends the longest chain that was ever signed, as long as the table still holds a
checkpoint of that length (`extends_longest_signed`); with the newest checkpoint deleted a
truncated chain is anchored as well (`truncated_is_anchored`).
-/

namespace ComplyLayer

open Theory

/-! ## When a chain is anchored -/

/-- The chain starts with as many records as the checkpoint says, the last one with its hash. -/
def AuditCheckpoint.Heads (row : AuditCheckpoint) (chain : List AuditRecord) : Prop :=
  ∃ before after, chain = before ++ after ∧ before ≠ [] ∧ row.chainLength = before.length ∧
    row.headHash = lastHash AuditRecord.hash genesis before

theorem lastHash_eq_of_getLast? {α β : Type} {hash : α → β} {b last : β} {l : List α}
    (h : (l.map hash).getLast? = some last) : lastHash hash b l = last := by
  rw [List.getLast?_map] at h
  obtain ⟨a, ha, rfl⟩ := Option.map_eq_some_iff.mp h
  rw [lastHash, ha]
  rfl

theorem checkHead_signed_iff {rt : CheckpointRuntime} {row : AuditCheckpoint} :
    (∃ result, AnchoredDb.checkHead rt row chain = .ok result ∧ result.anchoring = .signed) ↔
      row.Heads chain := by
  unfold AnchoredDb.checkHead AuditCheckpoint.Heads
  split
  · rename_i hneg
    refine iff_of_false (fun ⟨_, h, _⟩ => by cases h) ?_
    rintro ⟨before, after, -, -, hlength, -⟩
    omega
  rename_i hneg
  simp only [List.length_map, List.length_take]
  split
  · rename_i hshort
    refine iff_of_false ?_ ?_
    · rintro ⟨result, h, hsigned⟩
      cases h
      cases hsigned
    · rintro ⟨before, after, rfl, -, hlength, -⟩
      rw [List.length_append] at hshort
      omega
  rename_i hlong
  have hcut (before after : List AuditRecord) (hchain : chain = before ++ after)
      (hlength : row.chainLength = before.length) : chain.take row.chainLength.toNat = before := by
    rw [hlength, Int.toNat_natCast, hchain, List.take_left]
  split
  · rename_i hnone
    refine iff_of_false (fun ⟨_, h, _⟩ => by cases h) ?_
    rintro ⟨before, after, hchain, hne, hlength, -⟩
    rw [hcut before after hchain hlength, List.getLast?_map, Option.map_eq_none_iff,
      List.getLast?_eq_none_iff] at hnone
    exact hne hnone
  · rename_i last hlast
    have hhead := lastHash_eq_of_getLast? (b := genesis) hlast
    split
    · rename_i hrewritten
      refine iff_of_false ?_ ?_
      · rintro ⟨result, h, hsigned⟩
        cases h
        cases hsigned
      · rintro ⟨before, after, hchain, -, hlength, hhash⟩
        rw [hcut before after hchain hlength] at hhead
        exact hrewritten (hhead.symm.trans hhash.symm)
    · rename_i hsame
      refine iff_of_true ⟨_, rfl, rfl⟩ ⟨_, _, (List.take_append_drop _ _).symm, ?_, ?_,
        (hhead.trans (not_not.mp hsame)).symm⟩
      · intro hnil
        rw [hnil] at hlast
        cases hlast
      · rw [List.length_take]
        omega

theorem checkHead_cases (rt : CheckpointRuntime) {row : AuditCheckpoint}
    (hlength : 0 < row.chainLength) (chain : List AuditRecord) :
    ∃ result, AnchoredDb.checkHead rt row chain = .ok result ∧
      (result.anchoring = .signed ∨ result.anchoring = .broken) := by
  unfold AnchoredDb.checkHead
  rw [if_neg (by omega)]
  simp only [List.length_map, List.length_take]
  split
  · exact ⟨_, rfl, .inr rfl⟩
  split
  · rename_i hlong hnone
    rw [List.getLast?_map, Option.map_eq_none_iff, List.getLast?_eq_none_iff] at hnone
    have hzero := congrArg List.length hnone
    rw [List.length_take, List.length_nil] at hzero
    omega
  · split
    · exact ⟨_, rfl, .inr rfl⟩
    · exact ⟨_, rfl, .inl rfl⟩

/-- The row's signature verifies against the key. -/
def AuditCheckpoint.Verifies (rt : CheckpointRuntime) (publicPem : String) (row : AuditCheckpoint) :
    Prop :=
  Checkpoint.verifySignature rt publicPem row.signature row.toCheckpointFields = .ok true

theorem AuditCheckpoint.verifies_of_verify {rt : CheckpointRuntime} {row : AuditCheckpoint}
    {publicKey : rt.PublicKey} (hload : rt.loadPemPublicKey publicPem = .ok (some publicKey))
    (h : rt.verify publicKey row.signature
      (Checkpoint.canonicalCheckpoint rt.toAuditRuntime row.toCheckpointFields) = true) :
    row.Verifies rt publicPem := by
  rw [Verifies, Checkpoint.verifySignature, hload]
  exact congrArg Except.ok h

theorem latestCheckpoint_eq_some {rt : CheckpointRuntime} {db : AnchoredDb}
    (h : db.latestCheckpoint rt tenantId = some latest) :
    (latest ∈ db.checkpoints ∧ latest.tenantId = tenantId) ∧
      ∀ row ∈ db.checkpoints, row.tenantId = tenantId → row.chainLength ≤ latest.chainLength := by
  obtain ⟨hlatest, hmax⟩ := le_of_head?_sortBy_toDual h
  rw [(rt.scan_perm _).mem_iff, List.mem_filter, decide_eq_true_iff] at hlatest
  refine ⟨hlatest, fun row hrow htenant => hmax row ?_⟩
  rw [(rt.scan_perm _).mem_iff, List.mem_filter, decide_eq_true_iff]
  exact ⟨hrow, htenant⟩

/-- A chain is anchored when the longest checkpoint verifies and is one of a start of it. -/
theorem verifyAnchoring_signed_iff {rt : CheckpointRuntime} {db : AnchoredDb} :
    (∃ result, db.verifyAnchoring rt tenantId (some publicPem) = .ok result ∧
        result.anchoring = .signed) ↔
      publicPem ≠ "" ∧ ∃ latest, db.latestCheckpoint rt tenantId = some latest ∧
        latest.Verifies rt publicPem ∧ latest.Heads (db.inOrder tenantId) := by
  unfold AnchoredDb.verifyAnchoring
  rw [Option.getD_some]
  by_cases hkey : publicPem = ""
  · rw [if_pos hkey]
    refine iff_of_false ?_ fun h => h.1 hkey
    rintro ⟨result, h, hsigned⟩
    cases h
    cases hsigned
  rw [if_neg hkey]
  split
  · rename_i hnone
    refine iff_of_false ?_ ?_
    · rintro ⟨result, h, hsigned⟩
      cases h
      cases hsigned
    · rintro ⟨-, latest, hlatest, -⟩
      cases hnone.symm.trans hlatest
  rename_i latest hlatest
  obtain ⟨⟨-, rfl⟩, -⟩ := latestCheckpoint_eq_some hlatest
  have hrow : (publicPem ≠ "" ∧ ∃ row, db.latestCheckpoint rt latest.tenantId = some row ∧
      row.Verifies rt publicPem ∧ row.Heads (db.inOrder latest.tenantId)) ↔
      latest.Verifies rt publicPem ∧ latest.Heads (db.inOrder latest.tenantId) := by
    rw [and_iff_right hkey, hlatest]
    simp only [Option.some.injEq, exists_eq_left']
  rw [hrow]
  split
  · rename_i hraised
    refine iff_of_false (fun ⟨_, h, _⟩ => by cases h) fun h => ?_
    cases hraised.symm.trans h.1
  · rename_i hgood
    rw [checkHead_signed_iff]
    exact (and_iff_right hgood).symm
  · rename_i hbad
    refine iff_of_false ?_ fun h => ?_
    · rintro ⟨result, h, hsigned⟩
      cases h
      cases hsigned
    · cases hbad.symm.trans h.1

/-- A checkpoint of no start of the chain, signed as it is, breaks it. -/
theorem verifyAnchoring_broken {rt : CheckpointRuntime} {db : AnchoredDb} (hkey : publicPem ≠ "")
    (hlatest : db.latestCheckpoint rt tenantId = some latest)
    (hverifies : latest.Verifies rt publicPem) (hlength : 0 < latest.chainLength)
    (hheads : ¬ latest.Heads (db.inOrder tenantId)) :
    ∃ result, db.verifyAnchoring rt tenantId (some publicPem) = .ok result ∧
      result.anchoring = .broken := by
  have hsigned : ¬ ∃ result, db.verifyAnchoring rt tenantId (some publicPem) = .ok result ∧
      result.anchoring = .signed := by
    rw [verifyAnchoring_signed_iff]
    rintro ⟨-, row, hrow, -, hrowHeads⟩
    cases hlatest.symm.trans hrow
    exact hheads hrowHeads
  have hcheck : db.verifyAnchoring rt tenantId (some publicPem) =
      AnchoredDb.checkHead rt latest (db.inOrder tenantId) := by
    obtain ⟨⟨-, rfl⟩, -⟩ := latestCheckpoint_eq_some hlatest
    rw [AuditCheckpoint.Verifies] at hverifies
    simp only [AnchoredDb.verifyAnchoring, Option.getD_some, if_neg hkey, hlatest, hverifies]
  obtain ⟨result, hresult, hcases⟩ := checkHead_cases rt hlength (db.inOrder tenantId)
  rw [← hcheck] at hresult
  exact ⟨result, hresult, hcases.resolve_left fun h => hsigned ⟨result, hresult, h⟩⟩

/-! ## Honest calls and somebody with the database -/

instance (fields : AuditFields) : Decidable fields.IsNative :=
  decidable_of_iff ((Value.dict fields.actor.entries).isNative = true ∧
      (Value.dict fields.subject.entries).isNative = true ∧
      (Value.dict fields.payload.entries).isNative = true)
    ⟨fun h => ⟨h.1, h.2.1, h.2.2⟩, fun h => ⟨h.actor, h.subject, h.payload⟩⟩

/-- A chain as it was when a call signed its head. -/
structure SignedChain where
  tenantId : String
  records : List AuditRecord
  signedAt : Datetime

/-- What was signed of it. -/
def SignedChain.fields (chain : SignedChain) : CheckpointFields where
  tenantId := chain.tenantId
  chainLength := chain.records.length
  headHash := lastHash AuditRecord.hash genesis chain.records
  signedAt := chain.signedAt

/-- The tables, with every chain that was ever signed. -/
structure Custody where
  db : AnchoredDb
  signed : List SignedChain := []

inductive CustodyStep where
  | call (call : AuditCall)
  | checkpoint (args : CheckpointArgs)
  /-- Everything the rows of the two tables are replaced with. -/
  | tamper (records : List AuditRecord) (checkpoints : List AuditCheckpoint)

namespace Custody

/-- Somebody signed what the row says. -/
def Attests (rt : AuditRuntime) (s : Custody) (row : AuditCheckpoint) : Prop :=
  ∃ chain ∈ s.signed, Checkpoint.canonicalCheckpoint rt row.toCheckpointFields =
    Checkpoint.canonicalCheckpoint rt chain.fields

instance (rt : AuditRuntime) (s : Custody) (row : AuditCheckpoint) : Decidable (s.Attests rt row) :=
  inferInstanceAs (Decidable (∃ chain ∈ s.signed, _))

instance (rt : CheckpointRuntime) (publicPem : String) (row : AuditCheckpoint) :
    Decidable (row.Verifies rt publicPem) :=
  match h : Checkpoint.verifySignature rt publicPem row.signature row.toCheckpointFields with
  | .ok true => .isTrue h
  | .ok false => .isFalse fun hverifies => by cases h.symm.trans hverifies
  | .error _ => .isFalse fun hverifies => by cases h.symm.trans hverifies

/-- The rows are ones the tables can hold, and nothing is signed in them that no call signed. -/
def Possible (rt : CheckpointRuntime) (publicPem : String) (s : Custody)
    (records : List AuditRecord) (checkpoints : List AuditCheckpoint) : Prop :=
  (records.map (·.id)).Nodup ∧ (∀ record ∈ records, record.toAuditFields.IsNative) ∧
    ∀ row ∈ checkpoints, row.Verifies rt publicPem → s.Attests rt.toAuditRuntime row

instance (rt : CheckpointRuntime) (publicPem : String) (s : Custody) (records : List AuditRecord)
    (checkpoints : List AuditCheckpoint) :
    Decidable (s.Possible rt publicPem records checkpoints) :=
  inferInstanceAs (Decidable (_ ∧ _ ∧ ∀ row ∈ checkpoints, row.Verifies rt publicPem → _))

/-- The chain a checkpoint call signs. -/
def signs (rt : CheckpointRuntime) (s : Custody) (args : CheckpointArgs) : List SignedChain :=
  match s.db.signCheckpoint rt args with
  | .ok (some _) => [⟨args.tenantId, s.db.inOrder args.tenantId, args.moment⟩]
  | _ => []

/-- One honest call, or one change of somebody who has the database and not the key. -/
def step (rt : CheckpointRuntime) (publicPem : String) (s : Custody) :
    CustodyStep → Option Custody
  | .call call =>
    (s.db.toAuditDb.step rt.toAuditRuntime call).map fun db =>
      { s with db := { s.db with toAuditDb := db } }
  | .checkpoint args =>
    some { db := (s.db.writeCheckpoint rt args).1, signed := s.signed ++ s.signs rt args }
  | .tamper records checkpoints =>
    if s.Possible rt publicPem records checkpoints then
      some { s with db := { s.db with records := records, checkpoints := checkpoints } }
    else none

/-- No longer chain of the tenant was ever signed. -/
def Longest (s : Custody) (tenantId : String) (chain : SignedChain) : Prop :=
  (chain ∈ s.signed ∧ chain.tenantId = tenantId) ∧
    ∀ other ∈ s.signed, other.tenantId = tenantId → other.records.length ≤ chain.records.length

/-- A checkpoint that is to be the longest is one of a chain that verifies, with the head that was
signed before of a chain of its length. -/
def Sound (rt : CheckpointRuntime) (s : Custody) : CustodyStep → Prop
  | .checkpoint args =>
    (∀ chain ∈ s.signed, chain.tenantId = args.tenantId →
        chain.records.length ≤ (s.db.inOrder args.tenantId).length) →
      (s.db.verify rt.toAuditRuntime args.tenantId).ok = true ∧
        ∀ chain ∈ s.signed, chain.tenantId = args.tenantId →
          chain.records.length = (s.db.inOrder args.tenantId).length →
            lastHash AuditRecord.hash genesis chain.records =
              lastHash AuditRecord.hash genesis (s.db.inOrder args.tenantId)
  | _ => True

/-- The table holds a checkpoint of the tenant that is as long as the longest ever signed. -/
def Keeps (s : Custody) (tenantId : String) : Prop :=
  ∃ row ∈ s.db.checkpoints, row.tenantId = tenantId ∧
    ∀ chain ∈ s.signed, chain.tenantId = tenantId → (chain.records.length : Int) ≤ row.chainLength

end Custody

/-- The records start with those of the chain. -/
def Extends (records chain : List AuditRecord) : Prop :=
  ∃ before after, records = before ++ after ∧ List.Forall₂ AuditRecord.Same chain before

/-- A tenant whose chain verifies and is anchored has all that was signed of it. -/
def Custody.Survives (rt : CheckpointRuntime) (publicPem : String) (s : Custody)
    (tenantId : String) : Prop :=
  (s.db.verify rt.toAuditRuntime tenantId).ok = true →
    ∀ result, s.db.verifyAnchoring rt tenantId (some publicPem) = .ok result →
      result.anchoring = .signed →
        ∀ chain, s.Longest tenantId chain → Extends (s.db.inOrder tenantId) chain.records

/-! ## What signatures cover -/

/-- A signature verifies for no other message than the one it was made of. -/
def CheckpointRuntime.Binding (rt : CheckpointRuntime) : Prop :=
  ∀ privateKey publicKey message message',
    rt.verify publicKey (rt.sign privateKey message) message' = true → message = message'

/-- What a `jsonb` column gives back is what JSON has. -/
def AuditRuntime.ReadsNative (rt : AuditRuntime) : Prop :=
  ∀ document document', rt.jsonb document = some document' →
    (Value.dict document'.entries).isNative = true

theorem canonicalCheckpoint_injective {rt : AuditRuntime} {encoder : JsonEncoder}
    (henc : encoder.Faithful) (hrt : rt.Encodes encoder) :
    Function.Injective (Checkpoint.canonicalCheckpoint rt) := by
  intro a b h
  let document (fields : CheckpointFields) : List (String × Value) :=
    [("tenant_id", .str fields.tenantId), ("chain_length", .int fields.chainLength),
      ("head_hash", .str fields.headHash), ("signed_at", .str (rt.isoformat fields.signedAt))]
  have hdumps : encoder.dumps (document a) = encoder.dumps (document b) := by
    rw [← hrt.dumps, ← hrt.dumps]
    exact h
  have hfield (key : String) {v w : Value} (hv : (key, v) ∈ document a)
      (hw : ∀ u, (key, u) ∈ document b → u = w) : v.sortKeys = w.sortKeys :=
    sortKeys_eq_of_key henc rfl rfl hdumps hv hw
  have htenant := hfield "tenant_id" (v := .str a.tenantId) (w := .str b.tenantId)
    (by simp [document]) (by simp [document])
  have hlength := hfield "chain_length" (v := .int a.chainLength) (w := .int b.chainLength)
    (by simp [document]) (by simp [document])
  have hhead := hfield "head_hash" (v := .str a.headHash) (w := .str b.headHash)
    (by simp [document]) (by simp [document])
  have hmoment := hfield "signed_at" (v := .str (rt.isoformat a.signedAt))
    (w := .str (rt.isoformat b.signedAt)) (by simp [document]) (by simp [document])
  obtain ⟨tenantId, chainLength, headHash, signedAt⟩ := a
  obtain ⟨tenantId', chainLength', headHash', signedAt'⟩ := b
  cases Value.str.inj htenant
  cases Value.int.inj hlength
  cases Value.str.inj hhead
  cases hrt.isoformat_injective (Value.str.inj hmoment)
  rfl

namespace AnchoredDb

/-- The last record of a tenant is the last of its chain. -/
theorem tail_eq_getLast? {db : AuditDb} (h : (db.records.map (·.id)).Nodup) (tenantId : String) :
    db.tail tenantId = (db.inOrder tenantId).getLast? := by
  refine head?_sortBy_toDual_eq fun r hr r' hr' hposition => ?_
  have hid : r.id = r'.id := congrArg (fun position => (ofLex position).2) hposition
  exact List.inj_on_of_nodup_map h (List.mem_of_mem_filter hr) (List.mem_of_mem_filter hr') hid

theorem sign_eq_ok {rt : CheckpointRuntime}
    (h : Checkpoint.sign rt privatePem fields = .ok signature) :
    ∃ key, rt.loadPemPrivateKey privatePem = .ok (some key) ∧
      signature = rt.sign key (Checkpoint.canonicalCheckpoint rt.toAuditRuntime fields) := by
  rw [Checkpoint.sign] at h
  cases hload : rt.loadPemPrivateKey privatePem with
  | error raised =>
    rw [hload] at h
    cases h
  | ok key =>
    rw [hload] at h
    cases key with
    | none => cases h
    | some key =>
      cases h
      exact ⟨key, rfl, rfl⟩

theorem signHead_eq_ok {rt : CheckpointRuntime}
    (h : signHead rt args length headHash = .ok row) :
    row.toCheckpointFields =
        { tenantId := args.tenantId, chainLength := length, headHash := headHash,
          signedAt := args.moment } ∧
      ∃ key, rt.loadPemPrivateKey args.privatePem = .ok (some key) ∧
        row.signature = rt.sign key
          (Checkpoint.canonicalCheckpoint rt.toAuditRuntime row.toCheckpointFields) := by
  rw [signHead] at h
  cases hsign : Checkpoint.sign rt args.privatePem
      { tenantId := args.tenantId, chainLength := length, headHash := headHash,
        signedAt := args.moment } with
  | error raised =>
    rw [hsign] at h
    cases h
  | ok signature =>
    rw [hsign] at h
    cases h
    exact ⟨rfl, sign_eq_ok hsign⟩

/-- The statements before a row is signed. -/
theorem signCheckpoint_steps {rt : CheckpointRuntime} {db : AnchoredDb}
    (h : db.signCheckpoint rt args = .ok (some row)) :
    (db.recordsOf args.tenantId).length ≠ 0 ∧ ∃ head, db.tail args.tenantId = some head ∧
      signHead rt args (db.recordsOf args.tenantId).length head.hash = .ok row := by
  unfold signCheckpoint at h
  split at h
  · cases h
  rename_i hlength
  split at h
  · cases h
  rename_i head hhead
  refine ⟨hlength, head, hhead, ?_⟩
  cases hsign : signHead rt args (db.recordsOf args.tenantId).length head.hash with
  | error raised =>
    rw [hsign] at h
    cases h
  | ok signed =>
    rw [hsign] at h
    cases h
    rfl

/-- What a call signs is the chain of the tenant, by its length and its last hash. -/
theorem signCheckpoint_eq_some {rt : CheckpointRuntime} {db : AnchoredDb}
    (hnodup : (db.records.map (·.id)).Nodup) (h : db.signCheckpoint rt args = .ok (some row)) :
    row.toCheckpointFields =
        SignedChain.fields ⟨args.tenantId, db.inOrder args.tenantId, args.moment⟩ ∧
      ∃ key, row.signature = rt.sign key
        (Checkpoint.canonicalCheckpoint rt.toAuditRuntime row.toCheckpointFields) := by
  obtain ⟨-, head, hhead, hsign⟩ := signCheckpoint_steps h
  obtain ⟨hfields, key, -, hsignature⟩ := signHead_eq_ok hsign
  refine ⟨?_, key, hsignature⟩
  rw [tail_eq_getLast? hnodup] at hhead
  have hlength : (db.inOrder args.tenantId).length = (db.recordsOf args.tenantId).length :=
    (perm_sortBy _ _).length_eq
  rw [hfields, SignedChain.fields, hlength, lastHash, hhead]
  rfl

/-- The call leaves the tables as they are, or adds the row it signed, as it reads back. -/
theorem writeCheckpoint_cases (rt : CheckpointRuntime) (db : AnchoredDb) (args : CheckpointArgs) :
    (db.writeCheckpoint rt args).1 = db ∨
      ∃ row, db.signCheckpoint rt args = .ok (some row) ∧
        (db.writeCheckpoint rt args).1 = { db with
          checkpoints := db.checkpoints ++
            [{ row with signedAt := row.signedAt.timestamptz }] } := by
  unfold writeCheckpoint createCheckpoint
  split
  · rename_i row hsign
    by_cases hfits : row.chainLength ≤ 2147483647 ∧ row.tenantId ∈ db.tenants
    · right
      refine ⟨row, hsign, ?_⟩
      simp only [if_pos hfits]
    · left
      simp only [if_neg hfits]
  · exact .inl rfl

end AnchoredDb

/-! ## What every step keeps -/

namespace Custody

/-- What holds of the tables and the signed chains in every run whose checkpoints are sound. -/
structure Kept (rt : CheckpointRuntime) (publicPem : String) (s : Custody) : Prop where
  nodup : (s.db.records.map (·.id)).Nodup
  native : ∀ record ∈ s.db.records, record.toAuditFields.IsNative
  attested : ∀ row ∈ s.db.checkpoints, row.Verifies rt publicPem → s.Attests rt.toAuditRuntime row
  signedNative : ∀ chain ∈ s.signed, ∀ record ∈ chain.records, record.toAuditFields.IsNative
  verified : ∀ tenantId chain, s.Longest tenantId chain →
    (verifyChain rt.toAuditRuntime chain.records).ok = true
  agree : ∀ tenantId chain chain', s.Longest tenantId chain → s.Longest tenantId chain' →
    lastHash AuditRecord.hash genesis chain.records =
      lastHash AuditRecord.hash genesis chain'.records

variable {rt : CheckpointRuntime} {publicPem : String} {s s' : Custody}

theorem Attests.mono {row : AuditCheckpoint} (h : s.Attests rt.toAuditRuntime row)
    (hsigned : ∀ chain ∈ s.signed, chain ∈ s'.signed) : s'.Attests rt.toAuditRuntime row := by
  obtain ⟨chain, hchain, heq⟩ := h
  exact ⟨chain, hsigned chain hchain, heq⟩

/-- A change of the tables only. -/
theorem Kept.of_signed_eq (h : s.Kept rt publicPem) (hsigned : s'.signed = s.signed)
    (hnodup : (s'.db.records.map (·.id)).Nodup)
    (hnative : ∀ record ∈ s'.db.records, record.toAuditFields.IsNative)
    (hattested : ∀ row ∈ s'.db.checkpoints, row.Verifies rt publicPem →
      s.Attests rt.toAuditRuntime row) : s'.Kept rt publicPem := by
  have hlongest {tenantId : String} {chain : SignedChain} (hchain : s'.Longest tenantId chain) :
      s.Longest tenantId chain := by
    rw [Longest, hsigned] at hchain
    exact hchain
  exact {
    nodup := hnodup
    native := hnative
    attested row hrow hverifies := (hattested row hrow hverifies).mono fun chain hchain => by
      rw [hsigned]
      exact hchain
    signedNative chain hchain := by
      rw [hsigned] at hchain
      exact h.signedNative chain hchain
    verified tenantId chain hchain := h.verified tenantId chain (hlongest hchain)
    agree tenantId chain chain' hchain hchain' :=
      h.agree tenantId chain chain' (hlongest hchain) (hlongest hchain') }

theorem kept_call (hjsonb : rt.ReadsNative) (h : s.Kept rt publicPem)
    (hstep : s.step rt publicPem (.call call) = some s') : s'.Kept rt publicPem := by
  rw [step, AuditDb.step_eq] at hstep
  cases hstep
  cases happend : s.db.toAuditDb.append rt.toAuditRuntime call.args call.draws with
  | none => exact h.of_signed_eq rfl h.nodup h.native h.attested
  | some db =>
    obtain ⟨row, hrow, hfresh, rfl⟩ := AuditDb.append_eq_some happend
    refine h.of_signed_eq rfl ?_ ?_ h.attested
    · change ((s.db.records ++ [row]).map (·.id)).Nodup
      rw [List.map_append, List.nodup_append_comm]
      exact List.nodup_cons.mpr ⟨hfresh, h.nodup⟩
    · obtain ⟨actor, subject, payload, hactor, hsubject, hpayload, rfl⟩ :=
        AuditRuntime.stored_eq_some hrow
      refine List.forall_mem_append.mpr ⟨h.native, List.forall_mem_singleton.mpr ?_⟩
      exact ⟨hjsonb _ _ hactor, hjsonb _ _ hsubject, hjsonb _ _ hpayload⟩

theorem kept_tamper (h : s.Kept rt publicPem)
    (hstep : s.step rt publicPem (.tamper records checkpoints) = some s') :
    s'.Kept rt publicPem := by
  rw [step] at hstep
  split at hstep
  · rename_i hpossible
    cases hstep
    exact h.of_signed_eq rfl hpossible.1 hpossible.2.1 hpossible.2.2
  · cases hstep

/-- The longest chains after one more was signed. -/
theorem longest_concat {chain new : SignedChain} {db : AnchoredDb}
    (h : Longest { db := db, signed := s.signed ++ [new] } tenantId chain) :
    (chain = new ∧ new.tenantId = tenantId ∧
        ∀ old ∈ s.signed, old.tenantId = tenantId → old.records.length ≤ new.records.length) ∨
      s.Longest tenantId chain ∧
        (new.tenantId = tenantId → new.records.length ≤ chain.records.length) := by
  obtain ⟨⟨hmem, htenant⟩, hmax⟩ := h
  rw [List.forall_mem_append, List.forall_mem_singleton] at hmax
  rcases List.mem_append.mp hmem with hold | hnew
  · exact .inr ⟨⟨⟨hold, htenant⟩, hmax.1⟩, hmax.2⟩
  · cases List.mem_singleton.mp hnew
    exact .inl ⟨rfl, htenant, hmax.1⟩

theorem signs_eq (rt : CheckpointRuntime) (s : Custody) (args : CheckpointArgs) :
    (∃ row, s.db.signCheckpoint rt args = .ok (some row) ∧
        s.signs rt args = [⟨args.tenantId, s.db.inOrder args.tenantId, args.moment⟩]) ∨
      (∀ row, s.db.signCheckpoint rt args ≠ .ok (some row)) ∧ s.signs rt args = [] := by
  unfold signs
  split
  · rename_i row hrow
    exact .inl ⟨row, hrow, rfl⟩
  · rename_i hnone
    exact .inr ⟨hnone, rfl⟩

/-- A new row that verifies says what was just signed. -/
theorem attests_new (hbinding : rt.Binding) (hnodup : (s.db.records.map (·.id)).Nodup)
    (hrow : s.db.signCheckpoint rt args = .ok (some row)) (hsigned : s'.signed = s.signed ++
      [⟨args.tenantId, s.db.inOrder args.tenantId, args.moment⟩])
    (hverifies : AuditCheckpoint.Verifies rt publicPem
      { row with signedAt := row.signedAt.timestamptz }) :
    s'.Attests rt.toAuditRuntime { row with signedAt := row.signedAt.timestamptz } := by
  obtain ⟨hfields, key, hsignature⟩ := AnchoredDb.signCheckpoint_eq_some hnodup hrow
  refine ⟨_, hsigned ▸ List.mem_append_right _ (List.mem_singleton_self _), ?_⟩
  rw [AuditCheckpoint.Verifies, Checkpoint.verifySignature] at hverifies
  cases hload : rt.loadPemPublicKey publicPem with
  | error raised =>
    rw [hload] at hverifies
    cases hverifies
  | ok publicKey =>
    rw [hload] at hverifies
    cases publicKey with
    | none => cases hverifies
    | some publicKey =>
      have hgood := Except.ok.inj hverifies
      rw [hsignature] at hgood
      rw [← hbinding _ _ _ _ hgood, hfields]

theorem kept_checkpoint (hbinding : rt.Binding) (h : s.Kept rt publicPem)
    (hsound : s.Sound rt (.checkpoint args))
    (hstep : s.step rt publicPem (.checkpoint args) = some s') : s'.Kept rt publicPem := by
  rw [step] at hstep
  cases hstep
  have hdb := AnchoredDb.writeCheckpoint_cases rt s.db args
  rcases signs_eq rt s args with ⟨row, hrow, hsigns⟩ | ⟨hnone, hsigns⟩
  · -- The chain of the tenant is one more that was signed.
    rw [hsigns]
    have hnew {chain : SignedChain} (hold : s.Longest args.tenantId chain)
        (hle : (s.db.inOrder args.tenantId).length ≤ chain.records.length)
        (hmax : ∀ old ∈ s.signed, old.tenantId = args.tenantId →
          old.records.length ≤ (s.db.inOrder args.tenantId).length) :
        lastHash AuditRecord.hash genesis chain.records =
          lastHash AuditRecord.hash genesis (s.db.inOrder args.tenantId) :=
      (hsound hmax).2 chain hold.1.1 hold.1.2 (le_antisymm (hmax chain hold.1.1 hold.1.2) hle)
    have hrecords : (s.db.writeCheckpoint rt args).1.records = s.db.records := by
      rcases hdb with hsame | ⟨_, _, hadded⟩
      · rw [hsame]
      · rw [hadded]
    refine {
      nodup := ?_, native := ?_, attested := ?_, signedNative := ?_, verified := ?_, agree := ?_ }
    · rw [hrecords]
      exact h.nodup
    · rw [hrecords]
      exact h.native
    · intro other hother hverifies
      have hmore (chain : SignedChain) (hchain : chain ∈ s.signed) : chain ∈ s.signed ++
          [⟨args.tenantId, s.db.inOrder args.tenantId, args.moment⟩] :=
        List.mem_append_left _ hchain
      rcases hdb with hsame | ⟨row', hrow', hadded⟩
      · rw [hsame] at hother
        exact (h.attested other hother hverifies).mono hmore
      · cases hrow.symm.trans hrow'
        rw [hadded] at hother
        rcases List.mem_append.mp hother with hold | hnew
        · exact (h.attested other hold hverifies).mono hmore
        · cases List.mem_singleton.mp hnew
          exact attests_new hbinding h.nodup hrow rfl hverifies
    · refine List.forall_mem_append.mpr ⟨h.signedNative, List.forall_mem_singleton.mpr ?_⟩
      intro record hrecord
      exact h.native record (List.mem_of_mem_filter (mem_sortBy.mp hrecord))
    · intro tenantId chain hchain
      rcases longest_concat hchain with ⟨rfl, rfl, hmax⟩ | ⟨hold, -⟩
      · exact (hsound hmax).1
      · exact h.verified tenantId chain hold
    · intro tenantId chain chain' hchain hchain'
      rcases longest_concat hchain with ⟨rfl, rfl, hmax⟩ | ⟨hold, hle⟩
      · rcases longest_concat hchain' with ⟨rfl, -, -⟩ | ⟨hold', hle'⟩
        · rfl
        · exact (hnew hold' (hle' rfl) hmax).symm
      · rcases longest_concat hchain' with ⟨rfl, rfl, hmax⟩ | ⟨hold', -⟩
        · exact hnew hold (hle rfl) hmax
        · exact h.agree tenantId chain chain' hold hold'
  · rcases hdb with hsame | ⟨row, hrow, -⟩
    · rw [hsame, hsigns, List.append_nil]
      exact h
    · exact absurd hrow (hnone row)

theorem kept_step (hbinding : rt.Binding) (hjsonb : rt.ReadsNative) (s : Custody)
    (a : CustodyStep) (s' : Custody) (h : s.Kept rt publicPem) (hsound : s.Sound rt a)
    (hstep : s.step rt publicPem a = some s') : s'.Kept rt publicPem := by
  cases a with
  | call call => exact kept_call hjsonb h hstep
  | checkpoint args => exact kept_checkpoint hbinding h hsound hstep
  | tamper records checkpoints => exact kept_tamper h hstep

theorem kept_start (tenants : List String) :
    Kept rt publicPem { db := { tenants := tenants } } where
  nodup := List.nodup_nil
  native _ h := absurd h List.not_mem_nil
  attested _ h := absurd h List.not_mem_nil
  signedNative _ h := absurd h List.not_mem_nil
  verified _ _ h := absurd h.1.1 List.not_mem_nil
  agree _ _ _ h := absurd h.1.1 List.not_mem_nil

end Custody

/-! ## Chains that are anchored -/

/-- The start of a chain that verifies is one that verifies. -/
theorem verifyChain_left {rt : AuditRuntime} (h : (verifyChain rt (l ++ m)).ok = true) :
    (verifyChain rt l).ok = true := by
  obtain ⟨hlinked, hhashed⟩ := verifyChainFrom_ok_iff.mp h
  exact verifyChainFrom_ok_iff.mpr
    ⟨linked_left hlinked, fun r hr => hhashed r (List.mem_append_left _ hr)⟩

/-- In a run whose checkpoints are sound, whatever is done to the rows in between, a tenant whose
chain verifies and is anchored has all that was ever signed of it, as long as a checkpoint of that
length is left. -/
theorem extends_longest_signed {rt : CheckpointRuntime} {encoder : JsonEncoder}
    (henc : encoder.Faithful) (hrt : rt.Encodes encoder) (hbinding : rt.Binding)
    (hjsonb : rt.ReadsNative)
    (hrun : run (Custody.step rt publicPem) { db := { tenants := tenants } } steps = some s)
    (hsound : Along (Custody.step rt publicPem) (Custody.Sound rt) { db := { tenants := tenants } }
      steps)
    (hkeeps : s.Keeps tenantId)
    (hcollision : ∀ chain ∈ s.signed, chain.tenantId = tenantId →
      rt.CollisionFree chain.records (s.db.inOrder tenantId)) :
    s.Survives rt publicPem tenantId := by
  have hkept : s.Kept rt publicPem :=
    hsound.invariant (Custody.kept_step hbinding hjsonb) (Custody.kept_start tenants) hrun
  intro hverify result hresult hsigned chain hchain
  obtain ⟨-, latest, hlatest, hverifies, before, after, hrecords, -, hlength, hhead⟩ :=
    verifyAnchoring_signed_iff.mp ⟨result, hresult, hsigned⟩
  obtain ⟨⟨hmem, htenant⟩, hmax⟩ := latestCheckpoint_eq_some hlatest
  -- The checkpoint says what was signed of some chain of the tenant.
  obtain ⟨attested, hattested, hmessage⟩ := hkept.attested latest hmem hverifies
  have hfields := canonicalCheckpoint_injective henc hrt hmessage
  have hlengthSigned : latest.chainLength = attested.records.length :=
    congrArg CheckpointFields.chainLength hfields
  have hheadSigned : latest.headHash = lastHash AuditRecord.hash genesis attested.records :=
    congrArg CheckpointFields.headHash hfields
  have htenantSigned : attested.tenantId = tenantId :=
    (congrArg CheckpointFields.tenantId hfields).symm.trans htenant
  -- It is as long as the longest, so that is one of the longest as well.
  obtain ⟨row, hrow, hrowTenant, hlongest⟩ := hkeeps
  have hattestedLongest : s.Longest tenantId attested := by
    refine ⟨⟨hattested, htenantSigned⟩, fun other hother hotherTenant => ?_⟩
    have hother := hlongest other hother hotherTenant
    have hrow := hmax row hrow hrowTenant
    omega
  have hsameLength : chain.records.length = before.length := by
    have hle := hchain.2 attested hattested htenantSigned
    have hge := hattestedLongest.2 chain hchain.1.1 hchain.1.2
    omega
  have hsameHead : lastHash AuditRecord.hash genesis chain.records =
      lastHash AuditRecord.hash genesis before := by
    rw [← hhead, hheadSigned]
    exact hkept.agree tenantId chain attested hchain hattestedLongest
  have hbefore : ∀ record ∈ before, record ∈ s.db.inOrder tenantId := fun record hrecord => by
    rw [hrecords]
    exact List.mem_append_left _ hrecord
  rw [AuditDb.verify, hrecords] at hverify
  refine ⟨before, after, hrecords, ?_⟩
  refine same_of_verifyChain henc hrt (hkept.verified tenantId chain hchain)
    (verifyChain_left hverify) (hkept.signedNative chain hchain.1.1)
    (fun record hrecord => hkept.native record
      (List.mem_of_mem_filter (mem_sortBy.mp (hbefore record hrecord))))
    (fun record hr record' hr' => hcollision chain hchain.1.1 hchain.1.2 record hr record'
      (hbefore record' hr'))
    hsameLength hsameHead

/-! ## The newest checkpoint deleted -/

/-- A runtime in which what was signed is the signature. -/
def textAnchor : CheckpointRuntime where
  toAuditRuntime :=
    { textAudit with jsonb := fun document =>
        if (Value.dict document.entries).isNative then some document else none }
  PrivateKey := String
  PublicKey := String
  loadPemPrivateKey pem := .ok (some pem)
  loadPemPublicKey pem := .ok (some pem)
  sign _ message := message
  verify _ signature message := signature = message
  strftime moment := textAudit.isoformat moment
  scan rows := rows
  scan_perm _ := .rfl

theorem textAnchor_encodes : textAnchor.Encodes plainEncoder where
  dumps _ := rfl
  isoformat_injective := textAudit_encodes.isoformat_injective

theorem textAnchor_readsNative : textAnchor.ReadsNative := by
  intro document document' h
  change (if (Value.dict document.entries).isNative then some document else none) =
    some document' at h
  split at h
  · rename_i hnative
    cases h
    exact hnative
  · cases h

def emptyAudit : Custody := { db := { tenants := ["tnt_audit"] } }

def nightly : CheckpointArgs := { tenantId := "tnt_audit", privatePem := "private", clock := 0 }

/-- An append and a checkpoint of it, and one more append. -/
def oneAnchored : List CustodyStep :=
  [.call (.append activated ⟨0, "a1", 1⟩), .checkpoint nightly,
    .call (.append activated ⟨0, "a2", 2⟩)]

def recordA : AuditRecord :=
  AuditDb.draft textAnchor.toAuditRuntime { tenants := ["tnt_audit"] } activated ⟨0, "a1", 1⟩

def recordB : AuditRecord :=
  AuditDb.draft textAnchor.toAuditRuntime { tenants := ["tnt_audit"], records := [recordA] }
    activated ⟨0, "a2", 2⟩

def signedAs (records : List AuditRecord) : SignedChain := ⟨"tnt_audit", records, ⟨0, some 0⟩⟩

def SignedChain.row (chain : SignedChain) : AuditCheckpoint :=
  { chain.fields with
    signature := Checkpoint.canonicalCheckpoint textAnchor.toAuditRuntime chain.fields }

/-- One of two records is anchored. -/
def anchoredOnce : Custody where
  db :=
    { tenants := ["tnt_audit"], records := [recordA, recordB]
      checkpoints := [(signedAs [recordA]).row] }
  signed := [signedAs [recordA]]

theorem run_oneAnchored :
    run (Custody.step textAnchor "public") emptyAudit oneAnchored = some anchoredOnce := rfl

theorem verifyChain_recordA : (verifyChain textAnchor.toAuditRuntime [recordA]).ok = true :=
  verifyChainFrom_ok_iff.mpr ⟨⟨rfl, trivial⟩, List.forall_mem_singleton.mpr rfl⟩

theorem verifyChain_recordB : (verifyChain textAnchor.toAuditRuntime [recordA, recordB]).ok = true :=
  verifyChainFrom_ok_iff.mpr ⟨⟨rfl, rfl, trivial⟩,
    List.forall_mem_cons.mpr ⟨rfl, List.forall_mem_singleton.mpr rfl⟩⟩

theorem verifies_row (chain : SignedChain) : chain.row.Verifies textAnchor "public" := by
  have hverify (signature message : String) :
      textAnchor.verify "public" signature message = decide (signature = message) := rfl
  refine AuditCheckpoint.verifies_of_verify rfl ?_
  rw [hverify]
  exact decide_eq_true rfl

/-- A checkpoint signed over a start of the chain anchors it. -/
theorem anchors_of_row (db : AnchoredDb) (before after : List AuditRecord)
    (hlatest : db.latestCheckpoint textAnchor "tnt_audit" = some (signedAs before).row)
    (hchain : db.inOrder "tnt_audit" = before ++ after) (hne : before ≠ []) : ∃ result,
      db.verifyAnchoring textAnchor "tnt_audit" (some "public") = .ok result ∧
        result.anchoring = .signed :=
  verifyAnchoring_signed_iff.mpr ⟨by decide, _, hlatest, verifies_row _, before, after, hchain,
    hne, rfl, rfl⟩

theorem sound_oneAnchored : Along (Custody.step textAnchor "public") (Custody.Sound textAnchor)
    emptyAudit oneAnchored := by
  refine ⟨trivial, fun s hs => ⟨?_, fun s _ => ⟨trivial, fun _ _ => trivial⟩⟩⟩
  cases hs
  exact fun _ => ⟨verifyChain_recordA, fun _ h => absurd h List.not_mem_nil⟩

/-- Both tables can be cut to the first record and its checkpoint. -/
theorem possible_first {s : Custody} (h : signedAs [recordA] ∈ s.signed) :
    s.Possible textAnchor "public" [recordA] [(signedAs [recordA]).row] :=
  ⟨List.nodup_singleton _, List.forall_mem_singleton.mpr ⟨rfl, rfl, rfl⟩,
    List.forall_mem_singleton.mpr fun _ => ⟨_, h, rfl⟩⟩

theorem tamper_first {s : Custody} (h : signedAs [recordA] ∈ s.signed) :
    Custody.step textAnchor "public" s (.tamper [recordA] [(signedAs [recordA]).row]) =
      some { s with db := { s.db with
        records := [recordA], checkpoints := [(signedAs [recordA]).row] } } := by
  rw [Custody.step, if_pos (possible_first h)]

/-- The record that no checkpoint covers is deleted, and the newest checkpoint kept. -/
def shortening : List CustodyStep :=
  oneAnchored ++ [.tamper [recordA] [(signedAs [recordA]).row]]

def shortened : Custody where
  db :=
    { tenants := ["tnt_audit"], records := [recordA]
      checkpoints := [(signedAs [recordA]).row] }
  signed := [signedAs [recordA]]

theorem extends_longest_signed_once :
    run (Custody.step textAnchor "public") emptyAudit shortening = some shortened ∧
      (shortened.db.verify textAnchor.toAuditRuntime "tnt_audit").ok = true ∧
      (∃ result, shortened.db.verifyAnchoring textAnchor "tnt_audit" (some "public") =
        .ok result ∧ result.anchoring = .signed) ∧
      shortened.Survives textAnchor "public" "tnt_audit" := by
  have htamper : Custody.step textAnchor "public" anchoredOnce
      (.tamper [recordA] [(signedAs [recordA]).row]) = some shortened :=
    tamper_first List.mem_cons_self
  have hrun : run (Custody.step textAnchor "public") emptyAudit shortening = some shortened :=
    run_append_eq_some.mpr ⟨_, run_oneAnchored, run_cons_eq_some.mpr ⟨_, htamper, rfl⟩⟩
  refine ⟨hrun, verifyChain_recordA, anchors_of_row _ [recordA] [] rfl rfl (by simp), ?_⟩
  refine extends_longest_signed plainEncoder_faithful textAnchor_encodes
    (fun _ _ _ _ h => of_decide_eq_true h) textAnchor_readsNative hrun ?_ ?_
    fun _ _ _ _ _ _ _ h => h
  · exact (along_append run_oneAnchored).mpr
      ⟨sound_oneAnchored, trivial, fun _ _ => trivial⟩
  · refine ⟨_, List.mem_singleton_self _, rfl, List.forall_mem_singleton.mpr fun _ => ?_⟩
    exact le_rfl

/-- A second checkpoint, after which its row and the record it covers are deleted. -/
def truncation : List CustodyStep :=
  oneAnchored ++ [.checkpoint nightly, .tamper [recordA] [(signedAs [recordA]).row]]

def anchoredTwice : Custody where
  db :=
    { tenants := ["tnt_audit"], records := [recordA, recordB]
      checkpoints := [(signedAs [recordA]).row, (signedAs [recordA, recordB]).row] }
  signed := [signedAs [recordA], signedAs [recordA, recordB]]

def truncated : Custody where
  db :=
    { tenants := ["tnt_audit"], records := [recordA]
      checkpoints := [(signedAs [recordA]).row] }
  signed := [signedAs [recordA], signedAs [recordA, recordB]]

/-- Every checkpoint was sound, the chain verifies and is anchored, and the longest chain that was
signed is gone. -/
theorem truncated_is_anchored : ∃ s,
    run (Custody.step textAnchor "public") emptyAudit truncation = some s ∧
      Along (Custody.step textAnchor "public") (Custody.Sound textAnchor) emptyAudit truncation ∧
      ¬ s.Survives textAnchor "public" "tnt_audit" := by
  have hcheckpoint : Custody.step textAnchor "public" anchoredOnce (.checkpoint nightly) =
      some anchoredTwice := rfl
  have htamper : Custody.step textAnchor "public" anchoredTwice
      (.tamper [recordA] [(signedAs [recordA]).row]) = some truncated :=
    tamper_first List.mem_cons_self
  have hrest : run (Custody.step textAnchor "public") anchoredOnce
      [.checkpoint nightly, .tamper [recordA] [(signedAs [recordA]).row]] = some truncated :=
    run_cons_eq_some.mpr ⟨_, hcheckpoint, run_cons_eq_some.mpr ⟨_, htamper, rfl⟩⟩
  refine ⟨truncated, run_append_eq_some.mpr ⟨_, run_oneAnchored, hrest⟩, ?_, fun h => ?_⟩
  · refine (along_append run_oneAnchored).mpr ⟨sound_oneAnchored, ?_, fun _ _ => ⟨trivial, fun _ _ =>
      trivial⟩⟩
    refine fun _ => ⟨verifyChain_recordB, List.forall_mem_singleton.mpr fun _ hlength => ?_⟩
    have htwo : 1 = 2 := hlength
    cases htwo
  · obtain ⟨result, hresult, hsigned⟩ := anchors_of_row truncated.db [recordA] [] rfl rfl
      (by simp)
    have hlongest : truncated.Longest "tnt_audit" (signedAs [recordA, recordB]) := by
      refine ⟨⟨List.mem_cons_of_mem _ List.mem_cons_self, rfl⟩, ?_⟩
      exact List.forall_mem_cons.mpr ⟨fun _ => Nat.le_succ 1,
        List.forall_mem_singleton.mpr fun _ => le_rfl⟩
    obtain ⟨before, after, hrecords, hsame⟩ :=
      h verifyChain_recordA result hresult hsigned _ hlongest
    have hlength : 1 = before.length + after.length := by
      rw [← List.length_append, ← hrecords]
      rfl
    have htwo : 2 = before.length := hsame.length_eq
    omega

end ComplyLayer
