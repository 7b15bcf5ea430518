import ComplyLayer.Api.Authentication

/-!
# What an issued key may do

A key is issued by a live key that may manage keys, with permissions its issuer has, and keeps its
role for good. By induction along the chain of its issuers it never has a permission that the
initial key at the root of the chain does not have.
-/

namespace ComplyLayer

open Theory

/-- The same key, revoked or not. -/
def ApiKey.Continues (row row' : ApiKey) : Prop := row' = { row with revokedAt := row'.revokedAt }

/-- A step puts in the table a key created by this row of it. -/
structure Issuance (db db' : ManagementDb) (issuer key : ApiKey) : Prop where
  present : db.keys.find? issuer.id = some issuer
  creator : key.createdBy = issuer.id
  fresh : db.keys.find? key.id = none
  added : db'.keys.find? key.id = some key

/-- Some request of the run issues the key. -/
def Issued (py : Python) (hasher : Hasher) (w : Service) (requests : List PresentedRequest)
    (issuer key : ApiKey) : Prop :=
  ∃ pre p post u u', requests = pre ++ p :: post ∧ run (serviceStep py hasher) w pre = some u ∧
    serviceStep py hasher u p = some u' ∧ Issuance u.db u'.db issuer key

/-- The chain of issuers of a key, back to a key that was there before the run. -/
inductive IssuanceChain (py : Python) (hasher : Hasher) (w : Service)
    (requests : List PresentedRequest) (root : ApiKey) : ApiKey → Prop
  | initial (found : w.db.keys.find? root.id = some root) :
      IssuanceChain py hasher w requests root root
  | issued (holder issuer key : ApiKey) (chain : IssuanceChain py hasher w requests root holder)
      (same : issuer.id = holder.id) (issued : Issued py hasher w requests issuer key) :
      IssuanceChain py hasher w requests root key

section
variable {py : Python} {hasher : Hasher} {w w' u u' : Service} {p : PresentedRequest}
  {requests pre post : List PresentedRequest} {row key issuer root : ApiKey}

theorem ApiKey.Continues.refl (row : ApiKey) : row.Continues row := rfl

theorem ApiKey.Continues.trans {row row' row'' : ApiKey} (h : row.Continues row')
    (h' : row'.Continues row'') : row.Continues row'' := by
  unfold ApiKey.Continues at h h' ⊢
  rw [h'] at ⊢
  rw [h]

theorem ApiKey.Continues.role (h : row.Continues row') : row'.role = row.role := by
  rw [h]

/-- A key that is in the table stays in it, as what it was issued as. -/
theorem continues_step (hstep : serviceStep py hasher w p = some w')
    (hfound : w.db.keys.find? keyId = some row) :
    ∃ row', w'.db.keys.find? keyId = some row' ∧ row.Continues row' := by
  have hsame (hkeys : w'.db.keys = w.db.keys) :
      ∃ row', w'.db.keys.find? keyId = some row' ∧ row.Continues row' :=
    ⟨row, hkeys ▸ hfound, .refl row⟩
  rcases serviceStep_effect hstep with hdb | ⟨presented, -, heffect⟩
  · exact hsame (by rw [hdb])
  · generalize p.request = request at heffect
    cases heffect with
    | lifecycle op entries effect keys => exact hsame keys
    | listCreated listId data name values named valued free insert publishes =>
      exact hsame publishes.keys
    | listUpdated request data entry nameOf name values updates found tenant named valued free
      publishes =>
      exact hsame publishes.keys
    | listDestroyed entry found tenant rules versions keys lists => exact hsame keys
    | quiet request silent same keys => exact hsame keys
    | keyIssued drawn data key may issuable tenant creator unrevoked same insert =>
      refine ⟨row, ?_, .refl row⟩
      rw [Table.find?_insert? insert, if_neg]
      · exact hfound
      · -- The id of a new key is not taken.
        rintro rfl
        have hnew := Table.find?_eq_none_iff.mpr (Table.insert?_eq_some_iff.mp insert).1
        rw [hfound] at hnew
        cases hnew
    | keyRevoked key reason now may found tenant unrevoked same keys =>
      let revoked : ApiKey := { key with revokedAt := some now }
      have hold : w.db.keys.find? revoked.id = some key := found
      rw [keys, Table.find?_put_of_found hold]
      split
      · rename_i hid
        rw [hid, hold] at hfound
        cases hfound
        exact ⟨revoked, rfl, rfl⟩
      · exact ⟨row, hfound, .refl row⟩

theorem continues_run (hrun : run (serviceStep py hasher) w requests = some w')
    (hfound : w.db.keys.find? keyId = some row) :
    ∃ row', w'.db.keys.find? keyId = some row' ∧ row.Continues row' := by
  refine run_invariant (fun v => ∃ row', v.db.keys.find? keyId = some row' ∧
    row.Continues row') ?_ ⟨row, hfound, .refl row⟩ hrun
  rintro v q v' ⟨row', hrow', hcontinues⟩ hstep
  obtain ⟨row'', hrow'', hcontinues'⟩ := continues_step hstep hrow'
  exact ⟨row'', hrow'', hcontinues.trans hcontinues'⟩

/-- A key that a step adds is issued by the key the request presents, which may manage keys and
has every permission it hands on. -/
theorem issuance_step (hstep : serviceStep py hasher w p = some w')
    (hfresh : w.db.keys.find? key.id = none) (hissued : w'.db.keys.find? key.id = some key) :
    ∃ issuer, w.Presents hasher p issuer ∧ Issuance w.db w'.db issuer key ∧
      may issuer.role .manageKeys ∧ mayIssue issuer.role key.role ∧
      key.tenantId = issuer.tenantId := by
  have hsame {C : Prop} (hkeys : w'.db.keys = w.db.keys) : C := by
    rw [hkeys, hfresh] at hissued
    cases hissued
  rcases serviceStep_effect hstep with hdb | ⟨presented, hpresents, heffect⟩
  · exact hsame (by rw [hdb])
  · generalize p.request = request at heffect
    cases heffect with
    | lifecycle op entries effect keys => exact hsame keys
    | listCreated listId data name values named valued free insert publishes =>
      exact hsame publishes.keys
    | listUpdated request data entry nameOf name values updates found tenant named valued free
      publishes =>
      exact hsame publishes.keys
    | listDestroyed entry found tenant rules versions keys lists => exact hsame keys
    | quiet request silent same keys => exact hsame keys
    | keyIssued drawn data key' may issuable tenant creator unrevoked same insert =>
      have hkey := hissued
      rw [Table.find?_insert? insert, hfresh] at hkey
      split at hkey
      · cases hkey
        exact ⟨presented, hpresents, ⟨hpresents.row.1, creator, hfresh, hissued⟩, may, issuable,
          tenant⟩
      · cases hkey
    | keyRevoked key' reason now may found tenant unrevoked same keys =>
      -- Revoking adds no row.
      let revoked : ApiKey := { key' with revokedAt := some now }
      have hold : w.db.keys.find? revoked.id = some key' := found
      rw [keys, Table.find?_put_of_found hold] at hissued
      split at hissued
      · rename_i hid
        rw [hid, hold] at hfresh
        cases hfresh
      · rw [hfresh] at hissued
        cases hissued

/-- The issuer of a key presented itself, live, and has every permission of the key. -/
theorem Issuance.by_issuer (h : Issuance w.db w'.db issuer key)
    (hstep : serviceStep py hasher w p = some w') :
    w.Presents hasher p issuer ∧ issuer.revokedAt = none ∧ may issuer.role .manageKeys ∧
      mayIssue issuer.role key.role ∧ key.tenantId = issuer.tenantId := by
  obtain ⟨issuer', hpresents, hissuance, hmay, hissuable, htenant⟩ :=
    issuance_step hstep h.fresh h.added
  have hid : issuer'.id = issuer.id := hissuance.creator.symm.trans h.creator
  have hrow := hissuance.present
  rw [hid, h.present] at hrow
  cases hrow
  exact ⟨hpresents, hpresents.row.2, hmay, hissuable, htenant⟩

/-- A key of a chain is in the table at the end, with its role. -/
theorem IssuanceChain.at_end (hrun : run (serviceStep py hasher) w requests = some w')
    (h : IssuanceChain py hasher w requests root key) :
    ∃ row, w'.db.keys.find? key.id = some row ∧ key.Continues row := by
  cases h with
  | initial found => exact continues_run hrun found
  | issued holder issuer key chain same issued =>
    obtain ⟨pre, p, post, u, u', rfl, hpre, hstep, hissuance⟩ := issued
    rw [List.append_cons] at hrun
    obtain ⟨v, hv, hpost⟩ := run_append_eq_some.mp hrun
    obtain ⟨t, ht, hv⟩ := run_concat_eq_some.mp hv
    cases hpre.symm.trans ht
    cases hstep.symm.trans hv
    exact continues_run hpost hissuance.added

/-- The row that issues a key has the role its chain gave it. -/
theorem issuer_role (hrun : run (serviceStep py hasher) w requests = some w')
    (chain : IssuanceChain py hasher w requests root holder) (same : issuer.id = holder.id)
    (issued : Issued py hasher w requests issuer key) : issuer.role = holder.role := by
  obtain ⟨row, hrow, hholder⟩ := chain.at_end hrun
  obtain ⟨pre, p, post, u, u', rfl, hpre, -, hissuance⟩ := issued
  obtain ⟨v, hv, hpost⟩ := run_append_eq_some.mp hrun
  cases hpre.symm.trans hv
  obtain ⟨row', hrow', hissuer⟩ := continues_run hpost hissuance.present
  rw [same, hrow] at hrow'
  cases hrow'
  exact hissuer.role.symm.trans hholder.role

/-- The permissions along a chain only shrink. -/
theorem IssuanceChain.permissions_subset
    (hrun : run (serviceStep py hasher) w requests = some w')
    (h : IssuanceChain py hasher w requests root key) :
    permissions key.role ⊆ permissions root.role := by
  induction h with
  | initial found => exact List.Subset.refl _
  | issued holder issuer key chain same issued ih =>
    have hrole := issuer_role hrun chain same issued
    obtain ⟨pre, p, post, u, u', rfl, hpre, hstep, hissuance⟩ := issued
    obtain ⟨-, -, -, hissuable, -⟩ := hissuance.by_issuer hstep
    intro action haction
    have hheld : action ∈ permissions issuer.role := by
      simpa using List.all_eq_true.mp hissuable action haction
    rw [hrole] at hheld
    exact ih hheld

/-- Every key of the table has a chain. -/
theorem exists_chain (hsplit : requests = pre ++ post)
    (hrun : run (serviceStep py hasher) w pre = some u)
    (hrow : u.db.keys.find? row.id = some row) :
    ∃ root key, IssuanceChain py hasher w requests root key ∧ key.id = row.id := by
  induction pre using List.reverseRecOn generalizing post u row with
  | nil =>
    cases hrun
    exact ⟨row, row, .initial hrow, rfl⟩
  | append_singleton pre p ih =>
    rw [List.append_assoc, List.singleton_append] at hsplit
    obtain ⟨v, hv, hstep⟩ := run_concat_eq_some.mp hrun
    cases hfound : v.db.keys.find? row.id with
    | some old =>
      have hid : old.id = row.id := (Table.find?_eq_some_iff.mp hfound).2
      obtain ⟨root, key, hchain, hkey⟩ := ih hsplit hv (hid ▸ hfound)
      exact ⟨root, key, hchain, hkey.trans hid⟩
    | none =>
      obtain ⟨issuer, hpresents, hissuance, -⟩ := issuance_step hstep hfound hrow
      obtain ⟨root, key, hchain, hkey⟩ := ih hsplit hv hissuance.present
      exact ⟨root, row, .issued key issuer row hchain hkey.symm
        ⟨pre, p, post, v, u, hsplit, hv, hstep, hissuance⟩, rfl⟩

/-- **No escalation through issuance.** In every run of requests, from any keys: each key has a
chain of issuers back to an initial key, and the permissions of no chain exceed those of its root;
each issuer presented itself when it issued, was not revoked, and could manage keys; and a key
stays in the table as what it was issued as, revoked or not. -/
theorem no_escalation (hrun : run (serviceStep py hasher) w requests = some w') :
    (∀ row, w'.db.keys.find? row.id = some row → ∃ root key,
      IssuanceChain py hasher w requests root key ∧ key.id = row.id ∧ key.Continues row) ∧
    (∀ root key, IssuanceChain py hasher w requests root key →
      permissions key.role ⊆ permissions root.role) ∧
    (∀ pre p post u u' issuer key, requests = pre ++ p :: post →
      run (serviceStep py hasher) w pre = some u → serviceStep py hasher u p = some u' →
      Issuance u.db u'.db issuer key →
        u.Presents hasher p issuer ∧ issuer.revokedAt = none ∧ may issuer.role .manageKeys) ∧
    (∀ pre post u row, requests = pre ++ post → run (serviceStep py hasher) w pre = some u →
      u.db.keys.find? row.id = some row →
        ∃ row', w'.db.keys.find? row.id = some row' ∧ row.Continues row') := by
  refine ⟨fun row hrow => ?_, fun root key hchain => hchain.permissions_subset hrun, ?_, ?_⟩
  · obtain ⟨root, key, hchain, hid⟩ := exists_chain (List.append_nil _).symm hrun hrow
    obtain ⟨row', hrow', hcontinues⟩ := hchain.at_end hrun
    rw [hid, hrow] at hrow'
    cases hrow'
    exact ⟨root, key, hchain, hid, hcontinues⟩
  · intro pre p post u u' issuer key _ _ hstep hissuance
    obtain ⟨hpresents, hunrevoked, hmay, -, -⟩ := hissuance.by_issuer hstep
    exact ⟨hpresents, hunrevoked, hmay⟩
  · rintro pre post u row rfl hpre hrow
    obtain ⟨v, hv, hpost⟩ := run_append_eq_some.mp hrun
    cases hpre.symm.trans hv
    exact continues_run hpost hrow

end

/-! An officer's key issues an engineer's key, which issues an auditor's. -/

def issuancePython : Python := .reading "true" (.constant (.bool true))

/-- A hash of a secret is the secret itself. -/
def plainHasher : Hasher where
  verify hashedSecret presented := hashedSecret = presented
  digest := id

def rootKey : ApiKey where
  id := "key_root"
  tenantId := "tnt_1"
  name := "Root"
  keyPrefix := "cl_live_root_key"
  hashedSecret := "cl_live_root_key_secret"
  environment := "live"
  role := .complianceOfficer
  createdBy := "bootstrap"

def issuanceStart : Service := { db := { keys := (∅ : Table ApiKey.id).getOrCreate rootKey } }

def issuanceBody (role : String) : Dict String Value :=
  .ofList [("name", .str "Worker"), ("role", .str role)]

def issuanceRequests : List PresentedRequest :=
  [⟨0, "Bearer cl_live_root_key_secret", 0,
      .issueKey ⟨"key_1", "engineer_secret", "cl_live_engineer_secret"⟩ (issuanceBody "engineer")⟩,
    ⟨1, "Bearer cl_live_engineer_secret", 1,
      .issueKey ⟨"key_2", "auditor_secret", "cl_live_auditor_secret"⟩ (issuanceBody "auditor")⟩,
    ⟨1, "Bearer cl_live_engineer_secret", 2,
      .issueKey ⟨"key_3", "officer_secret", "cl_live_officer_secret"⟩
        (issuanceBody "compliance_officer")⟩]

theorem no_escalation_two_links :
    ∃ w', run (serviceStep issuancePython plainHasher) issuanceStart issuanceRequests = some w' ∧
      w'.db.keys.rows.map (fun key => (key.id, key.createdBy)) =
        [("key_root", "bootstrap"), ("key_1", "key_root"), ("key_2", "key_1")] ∧
      ∀ root key, IssuanceChain issuancePython plainHasher issuanceStart issuanceRequests root key →
        permissions key.role ⊆ permissions root.role := by
  have hrun : (run (serviceStep issuancePython plainHasher) issuanceStart issuanceRequests).map
      (fun w => w.db.keys.rows.map fun key => (key.id, key.createdBy)) =
        some [("key_root", "bootstrap"), ("key_1", "key_root"), ("key_2", "key_1")] := by
    decide +kernel
  obtain ⟨w', hrun, hkeys⟩ := Option.map_eq_some_iff.mp hrun
  exact ⟨w', hrun, hkeys, (no_escalation hrun).2.1⟩

end ComplyLayer
