import ComplyLayer.Verify.Issuance
import Mathlib.Data.Set.Function
import Mathlib.Logic.Function.Basic

/-!
# Authentication, a step at a time

Calls of `authenticate` in many threads and workers read the row of a key, look for the presented
key among those the worker has verified, verify it and remember it, each in a step of its own, with
keys issued, revoked and forgotten in between. What a worker remembers says only that a key was
once the key of its row; that the row is not revoked is read by every call
(`authentication_sound`).
-/

namespace ComplyLayer

open Theory

/-- The arguments of `authenticate`, in a worker. -/
structure AuthArgs where
  worker : Nat
  header : String
  moment : ℚ

/-- How far a call has come: what it was given, the row it read, what it knows of the secret. -/
inductive AuthProgress where
  | started (presented : String)
  | live (presented : String) (key : ApiKey)
  | unknown (presented : String) (key : ApiKey)
  | verified (presented : String) (key : ApiKey)
  | returned (presented : String) (key : ApiKey)
  | refused (message : String)

/-- What the call returns. -/
def AuthProgress.credentials : AuthProgress → Option Credentials
  | returned _ key => some key.credentials
  | _ => none

/-- The next step of a call, or what others do to keys and caches. -/
inductive AuthPhase where
  | start (call : Nat) (args : AuthArgs)
  | read (call : Nat)
  | look (call : Nat)
  | verify (call : Nat)
  | remember (call : Nat)
  | issue (key : ApiKey)
  | revoke (keyId : String) (now : Int)
  | forget (worker : Nat) (keyPrefix : String)
  | clear (worker : Nat)

/-- The tables, what each worker remembers, and every call. -/
structure AuthState where
  db : ManagementDb
  verified : Nat → Verified := fun _ => ∅
  calls : Nat → Option (AuthArgs × AuthProgress) := fun _ => none

/-- The row after a request revoked its key. -/
def ApiKey.revoked (key : ApiKey) (now : Int) : ApiKey := { key with revokedAt := some now }

namespace AuthState

def put (s : AuthState) (call : Nat) (args : AuthArgs) (progress : AuthProgress) : AuthState :=
  { s with calls := Function.update s.calls call (some (args, progress)) }

def setVerified (s : AuthState) (worker : Nat) (verified : Verified) : AuthState :=
  { s with verified := Function.update s.verified worker verified }

/-- One step. -/
def step (hasher : Hasher) (s : AuthState) : AuthPhase → Option AuthState
  | .start call args =>
    match s.calls call with
    | some _ => none
    | none =>
      match presentedKey args.header with
      | .ok presented => some (s.put call args (.started presented))
      | .error message => some (s.put call args (.refused message))
  | .read call =>
    match s.calls call with
    | some (args, .started presented) =>
      match s.db.liveKey presented with
      | .ok key => some (s.put call args (.live presented key))
      | .error message => some (s.put call args (.refused message))
    | _ => none
  | .look call =>
    match s.calls call with
    | some (args, .live presented key) =>
      if remembered hasher (s.verified args.worker) presented args.moment then
        some (s.put call args (.returned presented key))
      else some (s.put call args (.unknown presented key))
    | _ => none
  | .verify call =>
    match s.calls call with
    | some (args, .unknown presented key) =>
      if hasher.verify key.hashedSecret presented then
        some (s.put call args (.verified presented key))
      else some (s.put call args (.refused "That API key is not valid."))
    | _ => none
  | .remember call =>
    match s.calls call with
    | some (args, .verified presented key) =>
      some ((s.setVerified args.worker ((s.verified args.worker).set (hasher.digest presented)
        (args.moment + keyCacheTtlSeconds, presentedPrefix presented))).put call args
          (.returned presented key))
    | _ => none
  | .issue key =>
    match s.db.insertKey key with
    | .ok db => some { s with db := db }
    | .error _ => some s
  | .revoke keyId now =>
    match s.db.keys.find? keyId with
    | some key =>
      some { s with db := { s.db with keys := s.db.keys.put (key.revoked now) } }
    | none => some s
  | .forget worker keyPrefix =>
    some (s.setVerified worker
      ((s.verified worker).filter fun (_, _, remembered) => remembered ≠ keyPrefix))
  | .clear worker => some (s.setVerified worker ∅)

end AuthState

namespace AuthState

/-- The steps of a call that nothing comes between. -/
def alone (call : Nat) (args : AuthArgs) : List AuthPhase :=
  [.start call args, .read call, .look call, .verify call, .remember call]

@[simp] theorem put_calls_self (s : AuthState) (call : Nat) (args : AuthArgs)
    (progress : AuthProgress) : (s.put call args progress).calls call = some (args, progress) :=
  Function.update_self _ _ _

theorem step_read {hasher : Hasher} {s : AuthState}
    (hcall : s.calls call = some (args, .started presented))
    (hlive : s.db.liveKey presented = .ok key) :
    s.step hasher (.read call) = some (s.put call args (.live presented key)) := by
  simp only [step, hcall, hlive]

theorem step_read_refused {hasher : Hasher} {s : AuthState}
    (hcall : s.calls call = some (args, .started presented))
    (hlive : s.db.liveKey presented = .error message) :
    s.step hasher (.read call) = some (s.put call args (.refused message)) := by
  simp only [step, hcall, hlive]

theorem step_look {hasher : Hasher} {s : AuthState}
    (hcall : s.calls call = some (args, .live presented key)) :
    s.step hasher (.look call) = some (s.put call args
      (if remembered hasher (s.verified args.worker) presented args.moment then
        .returned presented key
      else .unknown presented key)) := by
  simp only [step, hcall]
  split <;> rfl

theorem step_verify {hasher : Hasher} {s : AuthState}
    (hcall : s.calls call = some (args, .unknown presented key)) :
    s.step hasher (.verify call) = some (s.put call args
      (if hasher.verify key.hashedSecret presented then .verified presented key
      else .refused "That API key is not valid.")) := by
  simp only [step, hcall]
  split <;> rfl

/-- As many of them as there are to take are the call. -/
theorem run_alone {hasher : Hasher} {s : AuthState} (hnew : s.calls call = none) (args : AuthArgs) :
    ∃ n t, run (step hasher) s ((alone call args).take n) = some t ∧
      ((∃ message, authenticate hasher s.db (s.verified args.worker) args.header args.moment =
          .error message ∧ t.calls call = some (args, .refused message)) ∨
        ∃ presented key, authenticate hasher s.db (s.verified args.worker) args.header args.moment =
            .ok (key, t.verified args.worker) ∧
          t.calls call = some (args, .returned presented key)) := by
  unfold authenticate
  cases hpresented : presentedKey args.header with
  | error message =>
    have hstart : s.step hasher (.start call args) = some (s.put call args (.refused message)) := by
      simp only [step, hnew, hpresented]
    exact ⟨1, _, run_cons_eq_some.mpr ⟨_, hstart, rfl⟩, .inl ⟨message, rfl, put_calls_self ..⟩⟩
  | ok presented =>
    let started := s.put call args (.started presented)
    have hstart : s.step hasher (.start call args) = some started := by
      simp only [step, hnew, hpresented, started]
    have hstarted : started.calls call = some (args, .started presented) := put_calls_self ..
    change ∃ n t, _ ∧ ((∃ message, s.db.liveKey presented >>= _ = _ ∧ _) ∨
      ∃ presented' key, s.db.liveKey presented >>= _ = _ ∧ _)
    cases hlive : s.db.liveKey presented with
    | error message =>
      have hread : started.step hasher (.read call) = _ := step_read_refused hstarted hlive
      exact ⟨2, _, run_cons_eq_some.mpr ⟨_, hstart, run_cons_eq_some.mpr ⟨_, hread, rfl⟩⟩,
        .inl ⟨message, rfl, put_calls_self ..⟩⟩
    | ok key =>
      let live := started.put call args (.live presented key)
      have hread : started.step hasher (.read call) = some live := step_read hstarted hlive
      have hlook : live.step hasher (.look call) = _ := step_look (put_calls_self ..)
      change ∃ n t, _ ∧ ((∃ message, verifySecret hasher (s.verified args.worker) presented key
        args.moment >>= _ = _ ∧ _) ∨ ∃ presented' key', verifySecret hasher
          (s.verified args.worker) presented key args.moment >>= _ = _ ∧ _)
      have hsame : live.verified args.worker = s.verified args.worker := rfl
      rw [hsame] at hlook
      unfold verifySecret
      by_cases hremembered : remembered hasher (s.verified args.worker) presented args.moment = true
      · rw [if_pos hremembered] at hlook ⊢
        exact ⟨3, _, run_cons_eq_some.mpr ⟨_, hstart, run_cons_eq_some.mpr ⟨_, hread,
          run_cons_eq_some.mpr ⟨_, hlook, rfl⟩⟩⟩, .inr ⟨presented, key, rfl, put_calls_self ..⟩⟩
      · rw [if_neg hremembered] at hlook ⊢
        have hverify : (live.put call args (.unknown presented key)).step hasher (.verify call) =
          _ := step_verify (put_calls_self ..)
        by_cases hgood : hasher.verify key.hashedSecret presented = true
        · rw [if_pos hgood] at hverify ⊢
          let verified := (live.put call args (.unknown presented key)).put call args
            (.verified presented key)
          have hremember : verified.step hasher (.remember call) =
              some ((verified.setVerified args.worker ((s.verified args.worker).set
                (hasher.digest presented) (args.moment + keyCacheTtlSeconds,
                  presentedPrefix presented))).put call args (.returned presented key)) := by
            have hcall : verified.calls call = some (args, .verified presented key) :=
              put_calls_self ..
            simp only [step, hcall]
            rfl
          refine ⟨5, _, run_cons_eq_some.mpr ⟨_, hstart, run_cons_eq_some.mpr ⟨_, hread,
            run_cons_eq_some.mpr ⟨_, hlook, run_cons_eq_some.mpr ⟨_, hverify,
              run_cons_eq_some.mpr ⟨_, hremember, rfl⟩⟩⟩⟩⟩,
            .inr ⟨presented, key, ?_, put_calls_self ..⟩⟩
          exact congrArg (fun entries => Except.ok (key, entries))
            (Function.update_self args.worker _ verified.verified).symm
        · rw [if_neg hgood] at hverify ⊢
          exact ⟨4, _, run_cons_eq_some.mpr ⟨_, hstart, run_cons_eq_some.mpr ⟨_, hread,
            run_cons_eq_some.mpr ⟨_, hlook, run_cons_eq_some.mpr ⟨_, hverify, rfl⟩⟩⟩⟩,
            .inl ⟨_, rfl, put_calls_self ..⟩⟩

end AuthState

/-! ## Rows -/

/-- A later state of a row: it is the same key, and once revoked it stays revoked. -/
def ApiKey.Persists (row row' : ApiKey) : Prop :=
  row.Continues row' ∧ (row.revokedAt.isSome → row'.revokedAt.isSome)

theorem ApiKey.Persists.refl (row : ApiKey) : row.Persists row := ⟨.refl row, fun h => h⟩

theorem ApiKey.Persists.trans {row row' row'' : ApiKey} (h : row.Persists row')
    (h' : row'.Persists row'') : row.Persists row'' :=
  ⟨h.1.trans h'.1, fun hrevoked => h'.2 (h.2 hrevoked)⟩

theorem ApiKey.Persists.keyPrefix {row row' : ApiKey} (h : row.Persists row') :
    row'.keyPrefix = row.keyPrefix := by
  rw [h.1]

theorem ApiKey.Persists.hashedSecret {row row' : ApiKey} (h : row.Persists row') :
    row'.hashedSecret = row.hashedSecret := by
  rw [h.1]

/-- Every row is still there. -/
def Persist (db db' : ManagementDb) : Prop :=
  ∀ keyId row, db.keys.find? keyId = some row →
    ∃ row', db'.keys.find? keyId = some row' ∧ row.Persists row'

theorem Persist.refl (db : ManagementDb) : Persist db db := fun _ row h => ⟨row, h, .refl row⟩

theorem Persist.trans {db db' db'' : ManagementDb} (h : Persist db db') (h' : Persist db' db'') :
    Persist db db'' := by
  intro keyId row hrow
  obtain ⟨row', hrow', hpersists⟩ := h keyId row hrow
  obtain ⟨row'', hrow'', hpersists'⟩ := h' keyId row' hrow'
  exact ⟨row'', hrow'', hpersists.trans hpersists'⟩

/-- No two rows have one prefix. -/
def PrefixUnique (db : ManagementDb) : Prop :=
  ∀ row ∈ db.keys.rows, ∀ row' ∈ db.keys.rows, row.keyPrefix = row'.keyPrefix → row = row'

theorem resolve_eq_some {db : ManagementDb} (h : db.resolve keyPrefix = some row) :
    row ∈ db.keys.rows ∧ row.keyPrefix = keyPrefix := by
  unfold ManagementDb.resolve at h
  exact ⟨List.mem_of_find?_eq_some h, by simpa using List.find?_some h⟩

theorem liveKey_eq_ok {db : ManagementDb} (h : db.liveKey presented = .ok key) :
    db.resolve (presentedPrefix presented) = some key ∧ key.revokedAt = none := by
  unfold ManagementDb.liveKey at h
  split at h
  · cases h
  · rename_i row hrow
    split at h
    · cases h
    · rename_i hunrevoked
      cases h
      exact ⟨hrow, Option.not_isSome_iff_eq_none.mp hunrevoked⟩

theorem insertKey_eq_ok {db : ManagementDb} (h : db.insertKey key = .ok db') :
    (∀ row ∈ db.keys.rows, row.keyPrefix ≠ key.keyPrefix) ∧
      db.keys.insert? key = some db'.keys := by
  unfold ManagementDb.insertKey at h
  split at h
  · cases h
  · rename_i hfresh
    split at h
    · rename_i keys hkeys
      cases h
      refine ⟨fun row hrow htaken => hfresh ?_, hkeys⟩
      exact List.any_eq_true.mpr ⟨row, hrow, decide_eq_true htaken⟩
    · cases h

theorem persist_insertKey {db : ManagementDb} (h : db.insertKey key = .ok db') : Persist db db' :=
  fun _ row hrow =>
    ⟨row, Table.find?_insert?_of_some (insertKey_eq_ok h).2 hrow, .refl row⟩

theorem prefixUnique_insertKey {db : ManagementDb} (hunique : PrefixUnique db)
    (h : db.insertKey key = .ok db') : PrefixUnique db' := by
  obtain ⟨hfresh, hinsert⟩ := insertKey_eq_ok h
  have hrows := (Table.insert?_eq_some_iff.mp hinsert).2
  intro row hrow row' hrow' hkeys
  rw [hrows, List.mem_append, List.mem_singleton] at hrow hrow'
  rcases hrow with hold | rfl
  · rcases hrow' with hold' | rfl
    · exact hunique row hold row' hold' hkeys
    · exact absurd hkeys (hfresh row hold)
  · rcases hrow' with hold' | rfl
    · exact absurd hkeys.symm (hfresh row' hold')
    · rfl

theorem persist_revoke {db : ManagementDb} (h : db.keys.find? keyId = some key) (now : Int) :
    Persist db { db with keys := db.keys.put (key.revoked now) } := by
  have hid := (Table.find?_eq_some_iff.mp h).2
  have hfound : db.keys.find? (key.revoked now).id = some key := hid ▸ h
  intro otherId row hrow
  have hput := Table.find?_put_of_found hfound otherId
  by_cases heq : otherId = (key.revoked now).id
  · rw [if_pos heq] at hput
    rw [heq, hfound] at hrow
    cases hrow
    exact ⟨_, hput, rfl, fun _ => rfl⟩
  · rw [if_neg heq] at hput
    exact ⟨row, hput.trans hrow, .refl row⟩

theorem prefixUnique_revoke {db : ManagementDb} (hunique : PrefixUnique db)
    (h : db.keys.find? keyId = some key) (now : Int) :
    PrefixUnique { db with keys := db.keys.put (key.revoked now) } := by
  have hkey := (Table.find?_eq_some_iff.mp h).1
  -- Only the row of the key has its prefix, before and after.
  have hother {row : ApiKey} (hrow : row ∈ db.keys.rows) (hne : row.id ≠ (key.revoked now).id)
      (hkeys : row.keyPrefix = (key.revoked now).keyPrefix) : False := by
    have hid : row.id = key.id := congrArg ApiKey.id (hunique row hrow key hkey hkeys)
    exact hne hid
  intro row hrow row' hrow' hkeys
  rcases Table.mem_rows_put.mp hrow with ⟨rfl, -⟩ | ⟨hold, hne⟩
  · rcases Table.mem_rows_put.mp hrow' with ⟨rfl, -⟩ | ⟨hold', hne'⟩
    · rfl
    · exact (hother hold' hne' hkeys.symm).elim
  · rcases Table.mem_rows_put.mp hrow' with ⟨rfl, -⟩ | ⟨hold', hne'⟩
    · exact (hother hold hne hkeys).elim
    · exact hunique row hold row' hold' hkeys

/-! ## What calls and caches know -/

section
variable {hasher : Hasher} {fullKey : String → String} {P : Set String} {s s' : AuthState}
  {db db' : ManagementDb}

/-- The presented key is the key of the row that has its prefix. -/
def Genuine (fullKey : String → String) (db : ManagementDb) (presented : String) : Prop :=
  ∃ row ∈ db.keys.rows, row.keyPrefix = presentedPrefix presented ∧
    presented = fullKey row.hashedSecret

/-- The row was found by the prefix of the presented key, and is still there. -/
def FoundBy (db : ManagementDb) (presented : String) (key : ApiKey) : Prop :=
  key.keyPrefix = presentedPrefix presented ∧
    ∃ row, db.keys.find? key.id = some row ∧ key.Persists row

theorem Genuine.mono (h : Genuine fullKey db presented) (hpersist : Persist db db') :
    Genuine fullKey db' presented := by
  obtain ⟨row, hrow, hkeys, hkey⟩ := h
  obtain ⟨row', hrow', hpersists⟩ := hpersist row.id row (Table.find?_eq_some_iff.mpr ⟨hrow, rfl⟩)
  refine ⟨row', (Table.find?_eq_some_iff.mp hrow').1, ?_, ?_⟩
  · rw [hpersists.keyPrefix, hkeys]
  · rw [hpersists.hashedSecret, ← hkey]

theorem FoundBy.mono (h : FoundBy db presented key) (hpersist : Persist db db') :
    FoundBy db' presented key := by
  obtain ⟨hkeys, row, hrow, hpersists⟩ := h
  obtain ⟨row', hrow', hpersists'⟩ := hpersist key.id row hrow
  exact ⟨hkeys, row', hrow', hpersists.trans hpersists'⟩

/-- The prefix of a genuine key finds no other row. -/
theorem FoundBy.fullKey_eq (h : FoundBy db presented key) (hunique : PrefixUnique db)
    (hgenuine : Genuine fullKey db presented) : presented = fullKey key.hashedSecret := by
  obtain ⟨hkeys, row, hrow, hpersists⟩ := h
  obtain ⟨row', hrow', hkeys', hkey⟩ := hgenuine
  have hsame : row' = row := by
    refine hunique row' hrow' row (Table.find?_eq_some_iff.mp hrow).1 ?_
    rw [hkeys', hpersists.keyPrefix, hkeys]
  rw [← hpersists.hashedSecret, ← hsame]
  exact hkey

theorem FoundBy.genuine (h : FoundBy db presented key)
    (hkey : presented = fullKey key.hashedSecret) : Genuine fullKey db presented := by
  obtain ⟨hkeys, row, hrow, hpersists⟩ := h
  refine ⟨row, (Table.find?_eq_some_iff.mp hrow).1, ?_, ?_⟩
  · rw [hpersists.keyPrefix, hkeys]
  · rw [hpersists.hashedSecret, ← hkey]

/-- What a call has is right of the tables. -/
def AuthProgress.Right (fullKey : String → String) (P : Set String) (db : ManagementDb)
    (header : String) : AuthProgress → Prop
  | started presented => presentedKey header = .ok presented ∧ presented ∈ P
  | live presented key | unknown presented key =>
    (presentedKey header = .ok presented ∧ presented ∈ P) ∧ FoundBy db presented key
  | verified presented key | returned presented key =>
    (presentedKey header = .ok presented ∧ presented ∈ P) ∧ FoundBy db presented key ∧
      presented = fullKey key.hashedSecret
  | refused _ => True

theorem AuthProgress.Right.mono {progress : AuthProgress} (h : progress.Right fullKey P db header)
    (hpersist : Persist db db') : progress.Right fullKey P db' header := by
  cases progress with
  | started presented => exact h
  | live presented key => exact ⟨h.1, h.2.mono hpersist⟩
  | unknown presented key => exact ⟨h.1, h.2.mono hpersist⟩
  | verified presented key => exact ⟨h.1, h.2.1.mono hpersist, h.2.2⟩
  | returned presented key => exact ⟨h.1, h.2.1.mono hpersist, h.2.2⟩
  | refused message => trivial

namespace AuthState

/-- A worker remembers the digests of genuine keys, and every call has what is right. -/
structure Sound (hasher : Hasher) (fullKey : String → String) (P : Set String) (s : AuthState) :
    Prop where
  unique : PrefixUnique s.db
  cache : ∀ worker digest entry, (s.verified worker).get? digest = some entry →
    ∃ presented ∈ P, hasher.digest presented = digest ∧ Genuine fullKey s.db presented
  calls : ∀ call args progress, s.calls call = some (args, progress) →
    progress.Right fullKey P s.db args.header

theorem Sound.put (h : s.Sound hasher fullKey P)
    (hright : progress.Right fullKey P s.db args.header) :
    (s.put call args progress).Sound hasher fullKey P := by
  refine ⟨h.unique, h.cache, fun other otherArgs held hheld => ?_⟩
  change Function.update s.calls call (some (args, progress)) other = _ at hheld
  by_cases heq : other = call
  · subst heq
    rw [Function.update_self] at hheld
    cases hheld
    exact hright
  · rw [Function.update_of_ne heq] at hheld
    exact h.calls other otherArgs held hheld

theorem Sound.of_persist (h : s.Sound hasher fullKey P) (hunique : PrefixUnique db)
    (hpersist : Persist s.db db) : Sound hasher fullKey P { s with db := db } := by
  refine ⟨hunique, fun worker digest entry hentry => ?_, fun call args progress hcall => ?_⟩
  · obtain ⟨presented, hmem, hdigest, hgenuine⟩ := h.cache worker digest entry hentry
    exact ⟨presented, hmem, hdigest, hgenuine.mono hpersist⟩
  · exact (h.calls call args progress hcall).mono hpersist

theorem Sound.setVerified {entries : Verified} (h : s.Sound hasher fullKey P)
    (hcache : ∀ digest entry, entries.get? digest = some entry →
      ∃ presented ∈ P, hasher.digest presented = digest ∧ Genuine fullKey s.db presented) :
    (s.setVerified worker entries).Sound hasher fullKey P := by
  refine ⟨h.unique, fun other digest entry hentry => ?_, h.calls⟩
  change (Function.update s.verified worker entries other).get? digest = _ at hentry
  by_cases heq : other = worker
  · subst heq
    rw [Function.update_self] at hentry
    exact hcache digest entry hentry
  · rw [Function.update_of_ne heq] at hentry
    exact h.cache other digest entry hentry

/-- A call presents one of the keys of `P`. -/
def Presents (P : Set String) : AuthPhase → Prop
  | .start _ args => ∀ presented, presentedKey args.header = .ok presented → presented ∈ P
  | _ => True

theorem sound_start (h : s.Sound hasher fullKey P) (hP : Presents P (.start call args))
    (hstep : s.step hasher (.start call args) = some s') : s'.Sound hasher fullKey P := by
  rw [step] at hstep
  split at hstep
  · cases hstep
  split at hstep
  · rename_i presented hpresented
    cases hstep
    exact h.put ⟨hpresented, hP presented hpresented⟩
  · cases hstep
    exact h.put trivial

theorem sound_read (h : s.Sound hasher fullKey P)
    (hstep : s.step hasher (.read call) = some s') : s'.Sound hasher fullKey P := by
  rw [step] at hstep
  split at hstep
  · rename_i args presented hcall
    split at hstep
    · rename_i key hkey
      cases hstep
      obtain ⟨hmem, hkeys⟩ := resolve_eq_some (liveKey_eq_ok hkey).1
      exact h.put ⟨h.calls call args _ hcall, hkeys, key,
        Table.find?_eq_some_iff.mpr ⟨hmem, rfl⟩, .refl key⟩
    · cases hstep
      exact h.put trivial
  · cases hstep

/-- What is remembered under the digest of the presented key is the presented key. -/
theorem sound_look (hdigest : Set.InjOn hasher.digest P) (h : s.Sound hasher fullKey P)
    (hstep : s.step hasher (.look call) = some s') : s'.Sound hasher fullKey P := by
  rw [step] at hstep
  split at hstep
  · rename_i args presented key hcall
    obtain ⟨hpresented, hfound⟩ := h.calls call args _ hcall
    split at hstep
    · rename_i hremembered
      cases hstep
      obtain ⟨entry, hentry, -⟩ := (Option.any_eq_true _ _).mp hremembered
      obtain ⟨other, hother, heq, hgenuine⟩ := h.cache args.worker _ entry hentry
      cases hdigest hother hpresented.2 heq
      exact h.put ⟨hpresented, hfound, hfound.fullKey_eq h.unique hgenuine⟩
    · cases hstep
      exact h.put ⟨hpresented, hfound⟩
  · cases hstep

theorem sound_verify
    (hverify : ∀ hashed presented, hasher.verify hashed presented = true →
      presented = fullKey hashed) (h : s.Sound hasher fullKey P)
    (hstep : s.step hasher (.verify call) = some s') : s'.Sound hasher fullKey P := by
  rw [step] at hstep
  split at hstep
  · rename_i args presented key hcall
    obtain ⟨hpresented, hfound⟩ := h.calls call args _ hcall
    split at hstep
    · rename_i hgood
      cases hstep
      exact h.put ⟨hpresented, hfound, hverify _ _ hgood⟩
    · cases hstep
      exact h.put trivial
  · cases hstep

theorem sound_remember (h : s.Sound hasher fullKey P)
    (hstep : s.step hasher (.remember call) = some s') : s'.Sound hasher fullKey P := by
  rw [step] at hstep
  split at hstep
  · rename_i args presented key hcall
    obtain ⟨hpresented, hfound, hkey⟩ := h.calls call args _ hcall
    cases hstep
    refine (h.setVerified fun digest entry hentry => ?_).put ⟨hpresented, hfound, hkey⟩
    rw [Dict.get?_set] at hentry
    split at hentry
    · rename_i hdigest
      exact ⟨presented, hpresented.2, hdigest.symm, hfound.genuine hkey⟩
    · exact h.cache args.worker digest entry hentry
  · cases hstep

theorem sound_step (hdigest : Set.InjOn hasher.digest P)
    (hverify : ∀ hashed presented, hasher.verify hashed presented = true →
      presented = fullKey hashed) (s : AuthState) (phase : AuthPhase) (s' : AuthState)
    (h : s.Sound hasher fullKey P) (hP : Presents P phase)
    (hstep : s.step hasher phase = some s') : s'.Sound hasher fullKey P := by
  cases phase with
  | start call args => exact sound_start h hP hstep
  | read call => exact sound_read h hstep
  | look call => exact sound_look hdigest h hstep
  | verify call => exact sound_verify hverify h hstep
  | remember call => exact sound_remember h hstep
  | issue key =>
    rw [step] at hstep
    split at hstep
    · rename_i db hinsert
      cases hstep
      exact h.of_persist (prefixUnique_insertKey h.unique hinsert) (persist_insertKey hinsert)
    · cases hstep
      exact h
  | revoke keyId now =>
    rw [step] at hstep
    split at hstep
    · rename_i key hfound
      cases hstep
      exact h.of_persist (prefixUnique_revoke h.unique hfound now) (persist_revoke hfound now)
    · cases hstep
      exact h
  | forget worker keyPrefix =>
    cases hstep
    refine h.setVerified fun digest entry hentry => h.cache worker digest entry ?_
    rw [Dict.get?_eq_some_iff] at hentry ⊢
    exact List.mem_of_mem_filter hentry
  | clear worker =>
    cases hstep
    refine h.setVerified fun digest entry hentry => ?_
    rw [Dict.get?_empty] at hentry
    cases hentry

theorem persist_step (hstep : s.step hasher phase = some s') : Persist s.db s'.db := by
  cases phase with
  | issue key =>
    rw [step] at hstep
    split at hstep
    · rename_i db hinsert
      cases hstep
      exact persist_insertKey hinsert
    · cases hstep
      exact .refl _
  | revoke keyId now =>
    rw [step] at hstep
    split at hstep
    · rename_i key hfound
      cases hstep
      exact persist_revoke hfound now
    · cases hstep
      exact .refl _
  | forget | clear =>
    cases hstep
    exact .refl _
  | start | read | look | verify | remember =>
    rw [step] at hstep
    split at hstep
    all_goals first
      | cases hstep; done
      | cases hstep; exact .refl _
      | split at hstep <;> cases hstep <;> exact .refl _

theorem persist_run (hrun : run (step hasher) s phases = some s') : Persist s.db s'.db :=
  run_invariant (fun t => Persist s.db t.db) (fun _ _ _ ht hstep => ht.trans (persist_step hstep))
    (.refl s.db) hrun

end AuthState

/-- The call has read this row for this key. -/
def AuthProgress.Holds (presented : String) (key : ApiKey) : AuthProgress → Prop
  | live p k | unknown p k | verified p k | returned p k => p = presented ∧ k = key
  | started _ | refused _ => False

namespace AuthState

/-- A call has read this row for this key. -/
def Holds (s : AuthState) (call : Nat) (presented : String) (key : ApiKey) : Prop :=
  ∃ args progress, s.calls call = some (args, progress) ∧ progress.Holds presented key

theorem Holds.of_put (h : (s.put other args progress).Holds call presented key) :
    other = call ∧ progress.Holds presented key ∨ s.Holds call presented key := by
  obtain ⟨callArgs, held, hcall, hheld⟩ := h
  change Function.update s.calls other (some (args, progress)) call = _ at hcall
  by_cases heq : call = other
  · subst heq
    rw [Function.update_self] at hcall
    cases hcall
    exact .inl ⟨rfl, hheld⟩
  · rw [Function.update_of_ne heq] at hcall
    exact .inr ⟨callArgs, held, hcall, hheld⟩

/-- A call comes to a row by reading it. -/
theorem read_of_holds (hstep : s.step hasher phase = some s')
    (hbefore : ¬ s.Holds call presented key) (hafter : s'.Holds call presented key) :
    phase = .read call ∧ s.db.liveKey presented = .ok key := by
  cases phase with
  | start other args =>
    rw [step] at hstep
    split at hstep
    · cases hstep
    split at hstep <;> cases hstep <;> rcases hafter.of_put with ⟨-, hheld⟩ | hheld
    · exact hheld.elim
    · exact absurd hheld hbefore
    · exact hheld.elim
    · exact absurd hheld hbefore
  | read other =>
    rw [step] at hstep
    split at hstep
    · split at hstep
      · rename_i hkey
        cases hstep
        rcases hafter.of_put with ⟨rfl, rfl, rfl⟩ | hheld
        · exact ⟨rfl, hkey⟩
        · exact absurd hheld hbefore
      · cases hstep
        rcases hafter.of_put with ⟨-, hheld⟩ | hheld
        · exact hheld.elim
        · exact absurd hheld hbefore
    · cases hstep
  | look other =>
    rw [step] at hstep
    split at hstep
    · rename_i args p k hcall
      split at hstep <;> cases hstep <;> rcases hafter.of_put with ⟨rfl, hheld⟩ | hheld
      · exact absurd ⟨args, _, hcall, hheld⟩ hbefore
      · exact absurd hheld hbefore
      · exact absurd ⟨args, _, hcall, hheld⟩ hbefore
      · exact absurd hheld hbefore
    · cases hstep
  | verify other =>
    rw [step] at hstep
    split at hstep
    · rename_i args p k hcall
      split at hstep <;> cases hstep <;> rcases hafter.of_put with ⟨rfl, hheld⟩ | hheld
      · exact absurd ⟨args, _, hcall, hheld⟩ hbefore
      · exact absurd hheld hbefore
      · exact hheld.elim
      · exact absurd hheld hbefore
    · cases hstep
  | remember other =>
    rw [step] at hstep
    split at hstep
    · rename_i args p k hcall
      cases hstep
      rcases hafter.of_put with ⟨rfl, hheld⟩ | hheld
      · exact absurd ⟨args, _, hcall, hheld⟩ hbefore
      · exact absurd hheld hbefore
    · cases hstep
  | issue key' =>
    rw [step] at hstep
    split at hstep <;> cases hstep <;> exact absurd hafter hbefore
  | revoke keyId now =>
    rw [step] at hstep
    split at hstep <;> cases hstep <;> exact absurd hafter hbefore
  | forget | clear =>
    cases hstep
    exact absurd hafter hbefore

/-- The step of a run in which a call reads a row. -/
theorem exists_read (hrun : run (step hasher) s phases = some s')
    (hnew : s.calls call = none) (hholds : s'.Holds call presented key) :
    ∃ before after t, phases = before ++ .read call :: after ∧
      run (step hasher) s before = some t ∧
      t.db.resolve (presentedPrefix presented) = some key ∧ key.revokedAt = none := by
  have hstart : ¬ s.Holds call presented key := by
    rintro ⟨args, progress, hcall, -⟩
    cases hnew.symm.trans hcall
  obtain ⟨before, phase, after, t, t', rfl, hbefore, hstep, ht, ht'⟩ :=
    exists_step_of_run (Holds · call presented key) hrun hstart hholds
  obtain ⟨rfl, hlive⟩ := read_of_holds hstep ht ht'
  obtain ⟨hresolve, hunrevoked⟩ := liveKey_eq_ok hlive
  exact ⟨before, after, t, rfl, hbefore, hresolve, hunrevoked⟩

end AuthState

end

theorem AuthProgress.credentials_eq_some {progress : AuthProgress}
    (h : progress.credentials = some creds) :
    ∃ presented key, progress = .returned presented key ∧ creds = key.credentials := by
  cases progress with
  | returned presented key =>
    cases h
    exact ⟨presented, key, rfl, rfl⟩
  | _ => cases h

/-- The keys that calls of a run present. -/
def presentedIn (phases : List AuthPhase) : Set String :=
  { presented | ∃ call args, .start call args ∈ phases ∧
    presentedKey args.header = .ok presented }

/-- Whatever the caches hold: a call that returns has presented the key of a row that was not
revoked when it read it, and returns the tenant and the role of that row; and no call that starts
after a key was revoked returns them for that key. -/
theorem authentication_sound {hasher : Hasher} {fullKey : String → String}
    (hverify : ∀ hashed presented, hasher.verify hashed presented = true →
      presented = fullKey hashed)
    (hdigest : Set.InjOn hasher.digest (presentedIn phases)) (hunique : PrefixUnique db)
    (hrun : run (AuthState.step hasher) { db := db } phases = some s) :
    (∀ call args progress creds, s.calls call = some (args, progress) →
      progress.credentials = some creds →
        ∃ presented key before after t, presentedKey args.header = .ok presented ∧
          phases = before ++ .read call :: after ∧
          run (AuthState.step hasher) { db := db } before = some t ∧
          t.db.resolve (presentedPrefix presented) = some key ∧ key.revokedAt = none ∧
          presented = fullKey key.hashedSecret ∧ creds = key.credentials) ∧
    (∀ before after t, phases = before ++ after →
      run (AuthState.step hasher) { db := db } before = some t →
        ∀ key ∈ t.db.keys.rows, key.revokedAt.isSome → ∀ call, t.calls call = none →
          ∀ args progress creds, s.calls call = some (args, progress) →
            progress.credentials = some creds → creds.keyId ≠ key.id) := by
  constructor
  · intro call args progress creds hcall hcreds
    obtain ⟨presented, key, rfl, rfl⟩ := AuthProgress.credentials_eq_some hcreds
    have hpresents : Along (AuthState.step hasher)
        (fun _ phase => AuthState.Presents (presentedIn phases) phase) { db := db } phases := by
      refine along_of_forall fun phase hphase _ => ?_
      cases phase with
      | start other otherArgs => exact fun presented h => ⟨other, otherArgs, hphase, h⟩
      | _ => trivial
    have hstart : AuthState.Sound hasher fullKey (presentedIn phases) { db := db } :=
      ⟨hunique, fun _ _ _ h => (by cases h), fun _ _ _ h => (by cases h)⟩
    have hsound := hpresents.invariant (AuthState.sound_step hdigest hverify) hstart hrun
    obtain ⟨hpresented, -, hkey⟩ := hsound.calls call args _ hcall
    obtain ⟨before, after, t, hphases, hbefore, hresolve, hunrevoked⟩ :=
      AuthState.exists_read hrun rfl ⟨args, _, hcall, rfl, rfl⟩
    exact ⟨presented, key, before, after, t, hpresented.1, hphases, hbefore, hresolve, hunrevoked,
      hkey, rfl⟩
  · rintro before after t rfl hbefore key hkey hrevoked call hnew args progress creds hcall hcreds hid
    obtain ⟨presented, read, rfl, rfl⟩ := AuthProgress.credentials_eq_some hcreds
    obtain ⟨t', ht', hafter⟩ := run_append_eq_some.mp hrun
    cases hbefore.symm.trans ht'
    obtain ⟨between, rest, u, rfl, hbetween, hresolve, hunrevoked⟩ :=
      AuthState.exists_read hafter hnew ⟨args, _, hcall, rfl, rfl⟩
    -- The row the call read is a later state of the revoked one.
    obtain ⟨row, hrow, hpersists⟩ := AuthState.persist_run hbetween key.id key
      (Table.find?_eq_some_iff.mpr ⟨hkey, rfl⟩)
    have hread : u.db.keys.find? key.id = some read :=
      Table.find?_eq_some_iff.mpr ⟨(resolve_eq_some hresolve).1, hid⟩
    cases hrow.symm.trans hread
    have hsome := hpersists.2 hrevoked
    rw [hunrevoked] at hsome
    cases hsome

/-! A key is used, revoked, and presented again to the worker that remembers it. -/

def rootArgs : AuthArgs := ⟨0, "Bearer cl_live_root_key_secret", 0⟩

def revokedRun : List AuthPhase :=
  AuthState.alone 0 rootArgs ++ .revoke "key_root" 5 :: (AuthState.alone 1 rootArgs).take 2

theorem authentication_sound_revoked :
    ∃ s args progress,
      run (AuthState.step plainHasher) { db := issuanceStart.db } revokedRun = some s ∧
      s.calls 0 = some (args, progress) ∧
      (∃ key before after t, revokedRun = before ++ .read 0 :: after ∧
        run (AuthState.step plainHasher) { db := issuanceStart.db } before = some t ∧
        t.db.resolve "cl_live_root_key" = some key ∧ key.revokedAt = none ∧
        progress.credentials = some key.credentials) ∧
      ∀ args progress creds, s.calls 1 = some (args, progress) →
        progress.credentials = some creds → creds.keyId ≠ "key_root" := by
  have hverify : ∀ hashed presented, plainHasher.verify hashed presented = true →
      presented = id hashed := fun _ _ h => (of_decide_eq_true h).symm
  have hunique : PrefixUnique issuanceStart.db := by
    have hrows : issuanceStart.db.keys.rows = [rootKey] := rfl
    intro row hrow row' hrow' _
    rw [hrows, List.mem_singleton] at hrow hrow'
    rw [hrow, hrow']
  have hreturns : (run (AuthState.step plainHasher) { db := issuanceStart.db } revokedRun).map
      (fun s => (s.calls 0).map fun call => (call.1.header, call.2.credentials.isSome)) =
        some (some ("Bearer cl_live_root_key_secret", true)) := by decide +kernel
  have hrevoked : (run (AuthState.step plainHasher) { db := issuanceStart.db }
      (revokedRun.take 6)).map (fun s => (s.db.keys.rows.map fun key => (key.id, key.revokedAt),
        (s.calls 1).isNone)) = some ([("key_root", some 5)], true) := by decide +kernel
  obtain ⟨s, hrun, hcall⟩ := Option.map_eq_some_iff.mp hreturns
  obtain ⟨⟨args, progress⟩, hcall, hreturned⟩ := Option.map_eq_some_iff.mp hcall
  obtain ⟨hheader, hsome⟩ := Prod.mk.inj hreturned
  obtain ⟨creds, hcreds⟩ := Option.isSome_iff_exists.mp hsome
  obtain ⟨t, hbefore, ht⟩ := Option.map_eq_some_iff.mp hrevoked
  obtain ⟨hrows, hnew⟩ := Prod.mk.inj ht
  obtain ⟨hfirst, hsecond⟩ := authentication_sound hverify (fun _ _ _ _ h => h) hunique hrun
  obtain ⟨presented, key, before, after, u, hpresented, hphases, hread, hresolve, hunrevoked, -,
    rfl⟩ := hfirst 0 args progress creds hcall hcreds
  have hkey : presentedPrefix presented = "cl_live_root_key" := by
    rw [hheader] at hpresented
    cases hpresented
    decide +kernel
  have hmem : ("key_root", some 5) ∈ t.db.keys.rows.map fun key => (key.id, key.revokedAt) := by
    rw [hrows]
    exact List.mem_singleton_self _
  obtain ⟨row, hrow, hid⟩ := List.mem_map.mp hmem
  obtain ⟨hid, hat⟩ := Prod.mk.inj hid
  refine ⟨s, args, progress, hrun, hcall, ⟨key, before, after, u, hphases, hread, hkey ▸ hresolve,
    hunrevoked, hcreds⟩, fun args progress creds hcall hcreds => ?_⟩
  rw [← hid]
  exact hsecond _ _ t (List.take_append_drop 6 revokedRun).symm hbefore row hrow
    (by rw [hat]; rfl) 1 (Option.isNone_iff_eq_none.mp hnew) args progress creds hcall hcreds

end ComplyLayer
