import ComplyLayer.Api.Effects
import Mathlib.Data.Rat.Defs

/-!
# Authentication

`api/auth.py`, and the request of `api/middleware.py` that starts with it. Each worker remembers
which presented keys it has verified; the row of the key is read on every request.
-/

namespace ComplyLayer

open Theory

/-- `PasswordHasher.verify` and `_digest`. -/
structure Hasher where
  verify (hashedSecret presented : String) : Bool
  digest : String → String

/-- `_verified`: the digest of a presented key, until when it is remembered, and its prefix. -/
abbrev Verified := Dict String (ℚ × String)

def keyCacheTtlSeconds : ℚ := 60

/-- `header_value.removeprefix("Bearer ").strip()`, for a header that has the prefix. -/
def bearer? (header : String) : Option String :=
  if "Bearer ".toList.isPrefixOf header.toList then
    some (strip (String.ofList (header.toList.drop "Bearer ".length)))
  else none

/-- The `PREFIX_LENGTH` characters a key is looked up by. -/
def presentedPrefix (presented : String) : String := (presented.take 16).toString

namespace ManagementDb

/-- `_resolve`, in whatever tenant. -/
def resolve (db : ManagementDb) (keyPrefix : String) : Option ApiKey :=
  db.keys.rows.find? fun key => key.keyPrefix = keyPrefix

end ManagementDb

def ApiKey.credentials (key : ApiKey) : Credentials where
  tenantId := key.tenantId
  keyId := key.id
  environment := key.environment
  actor := ⟨key.id, key.role, ""⟩

/-- The verification of this presented key is remembered at this moment. -/
def remembered (hasher : Hasher) (verified : Verified) (presented : String) (moment : ℚ) : Bool :=
  (verified.get? (hasher.digest presented)).any fun entry => moment < entry.1

/-- The key a header presents, or what `AuthenticationFailed` says. -/
def presentedKey (header : String) : Except String String :=
  match bearer? header with
  | none => .error "Send an API key as \x60Authorization: Bearer cl_live_...\x60."
  | some presented =>
    if "cl_".toList.isPrefixOf presented.toList then .ok presented
    else .error "That is not a ComplyLayer API key."

/-- The row of a presented key that is there and not revoked. -/
def ManagementDb.liveKey (db : ManagementDb) (presented : String) : Except String ApiKey :=
  match db.resolve (presentedPrefix presented) with
  | none => .error "That API key is not valid."
  | some key =>
    if key.revokedAt.isSome then .error "That API key is not valid." else .ok key

/-- `_hasher.verify`, unless this worker remembers that it verified this key. -/
def verifySecret (hasher : Hasher) (verified : Verified) (presented : String) (key : ApiKey)
    (moment : ℚ) : Except String Verified :=
  if remembered hasher verified presented moment then .ok verified
  else if hasher.verify key.hashedSecret presented then
    .ok (verified.set (hasher.digest presented)
      (moment + keyCacheTtlSeconds, presentedPrefix presented))
  else .error "That API key is not valid."

/-- `authenticate`, and what the worker remembers after it. -/
def authenticate (hasher : Hasher) (db : ManagementDb) (verified : Verified) (header : String)
    (moment : ℚ) : Except String (ApiKey × Verified) := do
  let presented ← presentedKey header
  let key ← db.liveKey presented
  let verified ← verifySecret hasher verified presented key moment
  pure (key, verified)

/-- `revoke_from_cache`, by a request that revokes a key. -/
def ManagementRequest.forget (db : ManagementDb) (request : ManagementRequest)
    (verified : Verified) : Verified :=
  match request with
  | .revokeKey keyId _ _ =>
    match db.keys.find? keyId with
    | some key => verified.filter fun (_, _, keyPrefix) => keyPrefix ≠ key.keyPrefix
    | none => verified
  | _ => verified

/-- The database, and what each worker remembers. -/
structure Service where
  db : ManagementDb := {}
  verified : Nat → Verified := fun _ => ∅

/-- A request as a worker receives it. -/
structure PresentedRequest where
  worker : Nat
  header : String
  moment : ℚ
  request : ManagementRequest

def Service.remember (w : Service) (worker : Nat) (verified : Verified) : Nat → Verified :=
  fun other => if other = worker then verified else w.verified other

/-- One request: it is refused where it presents no live key, and nothing but what the worker
remembers changes where its view refuses it. -/
def serviceStep (py : Python) (hasher : Hasher) (w : Service) (p : PresentedRequest) :
    Option Service :=
  match authenticate hasher w.db (w.verified p.worker) p.header p.moment with
  | .error _ => some w
  | .ok (key, verified) =>
    match p.request.perform py w.db key.credentials with
    | .ok db => some ⟨db, w.remember p.worker (p.request.forget w.db verified)⟩
    | .error _ => some { w with verified := w.remember p.worker verified }

section
variable {py : Python} {hasher : Hasher} {w w' : Service} {p : PresentedRequest} {key : ApiKey}

/-- A request is made by a row of the table that is not revoked. -/
theorem authenticate_eq_ok
    (h : authenticate hasher db verified header moment = .ok (key, verified')) :
    key ∈ db.keys.rows ∧ key.revokedAt = none := by
  obtain ⟨presented, -, h⟩ := bind_eq_ok.mp h
  obtain ⟨live, hlive, h⟩ := bind_eq_ok.mp h
  obtain ⟨_, -, h⟩ := bind_eq_ok.mp h
  cases pure_eq_ok.mp h
  unfold ManagementDb.liveKey at hlive
  split at hlive
  · cases hlive
  · rename_i row hrow
    split at hlive
    · cases hlive
    · rename_i hunrevoked
      cases hlive
      exact ⟨List.mem_of_find?_eq_some hrow, Option.not_isSome_iff_eq_none.mp hunrevoked⟩

/-- The key a request is made by, when it authenticates. -/
def Service.Presents (hasher : Hasher) (w : Service) (p : PresentedRequest) (key : ApiKey) : Prop :=
  ∃ verified, authenticate hasher w.db (w.verified p.worker) p.header p.moment =
    .ok (key, verified)

theorem Service.Presents.row (h : w.Presents hasher p key) :
    w.db.keys.find? key.id = some key ∧ key.revokedAt = none := by
  obtain ⟨verified, h⟩ := h
  obtain ⟨hmem, hunrevoked⟩ := authenticate_eq_ok h
  exact ⟨Table.find?_eq_some_iff.mpr ⟨hmem, rfl⟩, hunrevoked⟩

theorem Service.Presents.unique (h : w.Presents hasher p key) (h' : w.Presents hasher p key') :
    key = key' := by
  obtain ⟨verified, h⟩ := h
  obtain ⟨verified', h'⟩ := h'
  rw [h] at h'
  cases h'
  rfl

/-- **What a request does**: nothing to the tables, or what its view does for the key it presents. -/
theorem serviceStep_effect (h : serviceStep py hasher w p = some w') :
    w'.db = w.db ∨ ∃ key, w.Presents hasher p key ∧
      ManagementEffect py w.db key.credentials p.request w'.db := by
  unfold serviceStep at h
  split at h
  · cases h
    exact .inl rfl
  · rename_i key verified hkey
    split at h
    · rename_i db hperform
      cases h
      exact .inr ⟨key, ⟨verified, hkey⟩, perform_effect hperform⟩
    · cases h
      exact .inl rfl

end

end ComplyLayer
