import ComplyLayer.Audit.Writer

/-!
# Signed checkpoints

`audit/checkpoint.py`, and `write_checkpoint` and `verify_anchoring` of `audit/writer.py`: a
signature over the length and the last hash of a tenant's chain, and the check of a chain against
the longest one.
-/

namespace ComplyLayer

open Theory

/-- What a verification can actually say about the chain being anchored. -/
inductive Anchoring where
  | signed
  | unanchored
  | broken
  deriving DecidableEq, Repr

structure CheckpointResult where
  anchoring : Anchoring
  checkedAt : Option Datetime := none
  chainLength : Int := 0
  detail : String := ""
  deriving DecidableEq, Repr

def CheckpointResult.ok (result : CheckpointResult) : Bool := result.anchoring = .signed

/-- What a signature covers. -/
structure CheckpointFields where
  tenantId : String
  chainLength : Int
  headHash : String
  signedAt : Datetime
  deriving DecidableEq, Repr

/-- `AuditCheckpoint`. -/
structure AuditCheckpoint extends CheckpointFields where
  signature : String
  deriving DecidableEq, Repr

/-- The library functions a checkpoint rests on. -/
structure CheckpointRuntime extends AuditRuntime where
  PrivateKey : Type
  PublicKey : Type
  /-- `load_pem_private_key`, `none` for a key of another kind than Ed25519. -/
  loadPemPrivateKey : String → Except String (Option PrivateKey)
  /-- `load_pem_public_key`, `none` for a key of another kind than Ed25519. -/
  loadPemPublicKey : String → Except String (Option PublicKey)
  /-- `key.sign(message).hex()`. -/
  sign : PrivateKey → String → String
  /-- `key.verify(bytes.fromhex(signature), message)` raises neither `InvalidSignature` nor
  `ValueError`. -/
  verify : PublicKey → String → String → Bool
  /-- A moment in the format `%Y-%m-%d %H:%M`. -/
  strftime : Datetime → String
  /-- The rows of a query, in the order the database comes to them. -/
  scan : List AuditCheckpoint → List AuditCheckpoint
  scan_perm : ∀ rows, (scan rows).Perm rows

namespace Checkpoint

/-- The exact bytes the signature covers. -/
def canonicalCheckpoint (rt : AuditRuntime) (fields : CheckpointFields) : String :=
  rt.dumps
    [("tenant_id", .str fields.tenantId),
      ("chain_length", .int fields.chainLength),
      ("head_hash", .str fields.headHash),
      ("signed_at", .str (rt.isoformat fields.signedAt))]

variable (rt : CheckpointRuntime)

/-- Sign a chain head. -/
def sign (privatePem : String) (fields : CheckpointFields) : Except String String := do
  match ← rt.loadPemPrivateKey privatePem with
  | none => .error "the checkpoint signing key must be Ed25519"
  | some key => .ok (rt.sign key (canonicalCheckpoint rt.toAuditRuntime fields))

def verifySignature (publicPem signature : String) (fields : CheckpointFields) :
    Except String Bool := do
  match ← rt.loadPemPublicKey publicPem with
  | none => .error "the checkpoint verifying key must be Ed25519"
  | some key => .ok (rt.verify key signature (canonicalCheckpoint rt.toAuditRuntime fields))

end Checkpoint

/-- The audit tables. -/
structure AnchoredDb extends AuditDb where
  checkpoints : List AuditCheckpoint := []

/-- The arguments of `write_checkpoint`, with what `datetime.now(UTC)` reads. -/
structure CheckpointArgs where
  tenantId : String
  privatePem : String
  now : Option Datetime := none
  clock : Int

def CheckpointArgs.moment (args : CheckpointArgs) : Datetime := args.now.getD ⟨args.clock, some 0⟩

namespace AnchoredDb

variable (rt : CheckpointRuntime) (db : AnchoredDb)

/-- The row `write_checkpoint` saves for a length and a last hash. -/
def signHead (args : CheckpointArgs) (length : Nat) (headHash : String) :
    Except String AuditCheckpoint := do
  let fields : CheckpointFields :=
    { tenantId := args.tenantId, chainLength := length, headHash := headHash,
      signedAt := args.moment }
  let signature ← Checkpoint.sign rt args.privatePem fields
  .ok { fields with signature := signature }

/-- `AuditCheckpoint.objects.create`, `none` where the row is refused: a length its column does not
take, or a tenant that is not there. -/
def createCheckpoint (row : AuditCheckpoint) : Option AnchoredDb :=
  if row.chainLength ≤ 2147483647 ∧ row.tenantId ∈ db.tenants then
    some { db with
      checkpoints := db.checkpoints ++ [{ row with signedAt := row.signedAt.timestamptz }] }
  else none

/-- The row `write_checkpoint` signs, `none` where the chain is empty, and the error it raises where
it cannot sign. -/
def signCheckpoint (args : CheckpointArgs) : Except String (Option AuditCheckpoint) :=
  if (db.recordsOf args.tenantId).length = 0 then .ok none
  else
    match db.tail args.tenantId with
    | none => .error "'NoneType' object has no attribute 'hash'"
    | some head => some <$> signHead rt args (db.recordsOf args.tenantId).length head.hash

/-- `write_checkpoint`, with the row it returns. Where it raises, the tables stay as they are. -/
def writeCheckpoint (args : CheckpointArgs) : AnchoredDb × Option AuditCheckpoint :=
  match db.signCheckpoint rt args with
  | .ok (some row) =>
    match db.createCheckpoint row with
    | some db' => (db', some row)
    | none => (db, none)
  | _ => (db, none)

/-- The tenant's first checkpoint by `-chain_length`. -/
def latestCheckpoint (tenantId : String) : Option AuditCheckpoint :=
  (sortBy (fun row => OrderDual.toDual row.chainLength)
    (rt.scan (db.checkpoints.filter fun row => row.tenantId = tenantId))).head?

/-- The comparison of a chain with what was signed of it. -/
def checkHead (latest : AuditCheckpoint) (chain : List AuditRecord) :
    Except String CheckpointResult :=
  if latest.chainLength < 0 then .error "Negative indexing is not supported."
  else
    let hashes := (chain.take latest.chainLength.toNat).map AuditRecord.hash
    let broken (detail : String) : CheckpointResult :=
      { anchoring := .broken, checkedAt := some latest.signedAt,
        chainLength := latest.chainLength, detail := detail }
    if hashes.length < latest.chainLength then
      .ok <| broken <| s!"The last checkpoint signed {latest.chainLength} records and only " ++
        s!"{hashes.length} remain. Records have been deleted since it was written."
    else
      match hashes.getLast? with
      | none => .error "list index out of range"
      | some last =>
        if last ≠ latest.headHash then
          .ok <| broken <| s!"The chain has been rewritten. Record {latest.chainLength} hashed to " ++
            s!"{latest.headHash} when it was signed and hashes to {last} now."
        else
          .ok { anchoring := .signed, checkedAt := some latest.signedAt,
                chainLength := latest.chainLength,
                detail := s!"Anchored: {latest.chainLength} records, signed " ++
                  s!"{rt.strftime latest.signedAt}Z." }

/-- Whether the chain matches the last thing anybody signed. -/
def verifyAnchoring (tenantId : String) (publicPem : Option String) :
    Except String CheckpointResult :=
  let publicPem := publicPem.getD ""
  if publicPem = "" then
    .ok { anchoring := .unanchored
          detail := "No checkpoint public key is configured, so nothing external anchors this " ++
            "chain. It will detect a record altered in place and will not detect a " ++
            "rewrite that recomputes every hash after it. Set " ++
            "COMPLYLAYER_CHECKPOINT_PUBLIC_KEY." }
  else
    match db.latestCheckpoint rt tenantId with
    | none =>
      .ok { anchoring := .unanchored
            detail := "A key is configured but no checkpoint has been written yet." }
    | some latest =>
      match Checkpoint.verifySignature rt publicPem latest.signature
          { latest.toCheckpointFields with tenantId := tenantId } with
      | .error raised => .error raised
      | .ok true => checkHead rt latest (db.inOrder tenantId)
      | .ok false =>
        .ok { anchoring := .broken, checkedAt := some latest.signedAt,
              chainLength := latest.chainLength
              detail := "The stored checkpoint does not verify against the configured public " ++
                "key. Either the checkpoint was tampered with or the key is not the one that " ++
                "signed it. Both need a human." }

end AnchoredDb

end ComplyLayer
