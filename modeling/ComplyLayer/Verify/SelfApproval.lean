import ComplyLayer.Verify.Issuance

/-!
# One key and the keys it issues

`require_not_author` compares the id of the key that approves with the id of the key that created
the rule, and issuing a key draws a new id. A key and the keys of its issuance chain approve no
rule they wrote exactly as long as none of them asks to approve a rule that another created.
-/

namespace ComplyLayer

open Theory

/-- A step creates the rule, or changes its content. -/
def Writes (db db' : ManagementDb) (ruleId : String) : Prop :=
  ∃ row', db'.rules.find? ruleId = some row' ∧
    ∀ row, db.rules.find? ruleId = some row → row'.content ≠ row.content

/-- Some request of the run creates the rule or changes its content. -/
def WrittenIn (py : Python) (hasher : Hasher) (w : Service) (requests : List PresentedRequest)
    (ruleId : String) : Prop :=
  ∃ pre p post u u', requests = pre ++ p :: post ∧ run (serviceStep py hasher) w pre = some u ∧
    serviceStep py hasher u p = some u' ∧ Writes u.db u'.db ruleId

/-- Every key presented in the run is the root, or issued by it through some chain. -/
def MadeByChain (py : Python) (hasher : Hasher) (w : Service) (requests : List PresentedRequest)
    (root : ApiKey) : Prop :=
  ∀ pre p post u key, requests = pre ++ p :: post → run (serviceStep py hasher) w pre = some u →
    u.Presents hasher p key →
      ∃ held, IssuanceChain py hasher w requests root held ∧ held.id = key.id

/-- A key that may approve asks to approve a rule written in the run only where it created the
rule itself. -/
def ApprovesOnlyOwn (py : Python) (hasher : Hasher) (w : Service)
    (requests : List PresentedRequest) : Prop :=
  ∀ pre p post u key ruleId reason now row, requests = pre ++ p :: post →
    run (serviceStep py hasher) w pre = some u → u.Presents hasher p key →
    p.request = .lifecycle (.approve ruleId reason now) → may key.role .approve →
    WrittenIn py hasher w pre ruleId → u.db.rules.find? ruleId = some row →
    row.tenantId = key.tenantId → row.createdBy = key.id

/-- Neither approved nor in force. -/
def Rule.Unapproved (row : Rule) : Prop := row.approvedBy = "" ∧ row.state ≠ .active

section
variable {py : Python} {hasher : Hasher} {w w' u u' : Service} {p : PresentedRequest}
  {requests pre post : List PresentedRequest} {key root : ApiKey} {row row' : Rule}

theorem IssuanceChain.root_found (h : IssuanceChain py hasher w requests root key) :
    w.db.keys.find? root.id = some root := by
  induction h with
  | initial found => exact found
  | issued holder issuer key chain same issued ih => exact ih

/-- Where one key is all there is at the start, every key is of its chain. -/
theorem madeByChain_of_only (hrows : w.db.keys.rows = [root]) :
    MadeByChain py hasher w requests root := by
  intro pre p post u key hsplit hpre hpresents
  obtain ⟨root', held, hchain, hid⟩ := exists_chain hsplit hpre hpresents.row.1
  have hmem := (Table.find?_eq_some_iff.mp hchain.root_found).1
  rw [hrows] at hmem
  rw [List.mem_singleton.mp hmem] at hchain
  exact ⟨held, hchain, hid⟩

/-- What a key of the chain may do, its root may do. -/
theorem MadeByChain.may_root (h : MadeByChain py hasher w requests root)
    (hrun : run (serviceStep py hasher) w requests = some w') (hsplit : requests = pre ++ p :: post)
    (hpre : run (serviceStep py hasher) w pre = some u) (hpresents : u.Presents hasher p key)
    (hmay : may key.role action) : may root.role action := by
  obtain ⟨held, hchain, hid⟩ := h pre p post u key hsplit hpre hpresents
  obtain ⟨last, hlast, hheld⟩ := hchain.at_end hrun
  obtain ⟨v, hv, hpost⟩ := run_append_eq_some.mp (hsplit ▸ hrun)
  cases hpre.symm.trans hv
  obtain ⟨last', hlast', hkey⟩ := continues_run hpost hpresents.row.1
  rw [hid, hlast'] at hlast
  cases hlast
  have hrole : key.role = held.role := hkey.role.symm.trans hheld.role
  rw [hrole] at hmay
  have hsubset := hchain.permissions_subset hrun (by simpa [may] using hmay)
  simpa [may] using hsubset

theorem writtenIn_concat (hpre : run (serviceStep py hasher) w pre = some u)
    (hstep : serviceStep py hasher u p = some u')
    (h : WrittenIn py hasher w (pre ++ [p]) ruleId) :
    WrittenIn py hasher w pre ruleId ∨ Writes u.db u'.db ruleId := by
  obtain ⟨before, q, after, v, v', hsplit, hv, hq, hwrites⟩ := h
  rcases List.eq_nil_or_concat after with rfl | ⟨after, last, rfl⟩
  · obtain ⟨rfl, rfl⟩ := List.append_singleton_inj.mp hsplit
    cases hpre.symm.trans hv
    cases hstep.symm.trans hq
    exact .inr hwrites
  · rw [List.concat_eq_append, ← List.cons_append, ← List.append_assoc] at hsplit
    obtain ⟨rfl, -⟩ := List.append_singleton_inj.mp hsplit
    exact .inl ⟨before, q, after, v, v', rfl, hv, hq, hwrites⟩

/-- A row with the content it had is not written. -/
theorem not_writes_of_content (hrow : u.db.rules.find? ruleId = some row)
    (hrow' : u'.db.rules.find? ruleId = some row') (hcontent : row'.content = row.content) :
    ¬ Writes u.db u'.db ruleId := by
  rintro ⟨new, hnew, hwrites⟩
  rw [hrow'] at hnew
  cases hnew
  exact hwrites row hrow hcontent

/-- One request leaves a rule written in the run neither approved nor in force. -/
theorem unapproved_step (hstep : serviceStep py hasher u p = some u')
    (hoverride : ∀ key, u.Presents hasher p key → ¬ may key.role .emergencyOverride)
    (happroves : ∀ key reason now row, u.Presents hasher p key →
      p.request = .lifecycle (.approve ruleId reason now) → may key.role .approve → written →
      u.db.rules.find? ruleId = some row → row.tenantId = key.tenantId → row.createdBy = key.id)
    (hold : written → ∀ row, u.db.rules.find? ruleId = some row → row.Unapproved)
    (hwritten : written ∨ Writes u.db u'.db ruleId)
    (hrow' : u'.db.rules.find? ruleId = some row') : row'.Unapproved := by
  -- A row the step leaves its content was written before it.
  have hbefore (row : Rule) (hrow : u.db.rules.find? ruleId = some row)
      (hcontent : row'.content = row.content) : written :=
    hwritten.resolve_right (not_writes_of_content hrow hrow' hcontent)
  have hkept (hrow : u.db.rules.find? ruleId = some row') : row'.Unapproved :=
    hold (hbefore row' hrow rfl) row' hrow
  rcases serviceStep_effect hstep with hdb | ⟨key, hpresents, heffect⟩
  · exact hkept (hdb ▸ hrow')
  · rcases heffect.row hrow' with hrow | ⟨op, hrequest, hrow⟩
    · exact hkept hrow
    · generalize hfound : u.db.rules.find? ruleId = found at hrow
      cases hrow with
      | kept row => exact hkept hfound
      | created newId content op => exact ⟨rfl, nofun⟩
      | edited rule patch op tenant editable change =>
        refine ⟨rfl, fun hactive => ?_⟩
        rcases editable with h | h <;> cases h.symm.trans hactive
      | approved rule reason now op tenant may notAuthor =>
        have hid : rule.id = ruleId := (Table.find?_eq_some_iff.mp hfound).2
        have hauthor := happroves key reason now rule hpresents (hid ▸ op ▸ hrequest) may
          (hbefore rule hfound rfl) hfound tenant
        exact absurd hauthor.symm notAuthor
      | shadowed rule op tenant =>
        exact ⟨(hold (hbefore rule hfound rfl) rule hfound).1, nofun⟩
      | activated rule emergencyReason now op tenant approval =>
        have hunapproved := hold (hbefore rule hfound rfl) rule hfound
        rcases approval with happroved | ⟨-, hmay⟩
        · exact absurd hunapproved.1 happroved
        · exact absurd hmay (hoverride key hpresents)
      | archived rule reason op tenant =>
        exact ⟨(hold (hbefore rule hfound rfl) rule hfound).1, nofun⟩

/-- **One key and the keys it issues.** In every run made with one key whose role lacks the
emergency override and with keys of its issuance chain, in which none of them asks to approve a
rule written in the run that another of them created: after every request, no rule written so far
is approved or in force. -/
theorem no_self_approval (hrun : run (serviceStep py hasher) w requests = some w')
    (hroot : ¬ may root.role .emergencyOverride) (hchain : MadeByChain py hasher w requests root)
    (hguard : ApprovesOnlyOwn py hasher w requests) (hsplit : requests = pre ++ post)
    (hpre : run (serviceStep py hasher) w pre = some u)
    (hwritten : WrittenIn py hasher w pre ruleId)
    (hrow : u.db.rules.find? ruleId = some row) : row.Unapproved := by
  induction pre using List.reverseRecOn generalizing post u row with
  | nil =>
    obtain ⟨before, q, after, v, v', hnil, -⟩ := hwritten
    simp at hnil
  | append_singleton pre p ih =>
    rw [List.append_assoc, List.singleton_append] at hsplit
    obtain ⟨v, hv, hstep⟩ := run_concat_eq_some.mp hpre
    refine unapproved_step hstep (fun key hpresents hmay => ?_)
      (fun key reason now rule hpresents hrequest hmay hwritten hrule htenant => ?_)
      (fun hwritten rule hrule => ih hsplit hv hwritten hrule)
      (writtenIn_concat hv hstep hwritten) hrow
    · exact hroot (hchain.may_root hrun hsplit hv hpresents hmay)
    · exact hguard pre p post v key ruleId reason now rule hsplit hv hpresents hrequest hmay
        hwritten hrule htenant

end

/-! An officer's key drafts a rule and asks to approve it; or issues a second key that does. -/

def chainPython : Python := .reading "amount_minor > 50"
  (.compare (.name "amount_minor") [(.gt, .constant (.int 50))])

def chainDraft : LifecycleOp := .createDraft "rul_1"
  { name := "Limit", category := "kyc", expression := "amount_minor > 50", severity := "block" }

def byRoot (op : LifecycleOp) : PresentedRequest :=
  ⟨0, "Bearer cl_live_root_key_secret", 0, .lifecycle op⟩

def bySibling (op : LifecycleOp) : PresentedRequest :=
  ⟨0, "Bearer cl_live_sibling__secret", 0, .lifecycle op⟩

def ownApproval : List PresentedRequest :=
  [byRoot chainDraft, byRoot (.approve "rul_1" (.str "") 0)]

def siblingApproval : List PresentedRequest :=
  [byRoot chainDraft,
    ⟨0, "Bearer cl_live_root_key_secret", 0,
      .issueKey ⟨"key_1", "sibling__secret", "cl_live_sibling__secret"⟩
        (issuanceBody "compliance_officer")⟩,
    bySibling (.approve "rul_1" (.str "") 0), bySibling (.activate "rul_1" (.str "") 1)]

/-- The draft of the root's key, by evaluation. -/
theorem chain_drafts : ∃ u row, serviceStep chainPython plainHasher issuanceStart
      (byRoot chainDraft) = some u ∧
    u.db.rules.find? "rul_1" = some row ∧ row.createdBy = "key_root" ∧
    u.db.keys.rows.map ApiKey.id = ["key_root"] := by
  have heval : ((serviceStep chainPython plainHasher issuanceStart (byRoot chainDraft)).bind
      fun u => (u.db.rules.find? "rul_1").map
        fun row => (row.createdBy, u.db.keys.rows.map ApiKey.id)) =
          some ("key_root", ["key_root"]) := by
    decide +kernel
  obtain ⟨u, hu, hrow⟩ := Option.bind_eq_some_iff.mp heval
  obtain ⟨row, hrow, hpair⟩ := Option.map_eq_some_iff.mp hrow
  exact ⟨u, row, hu, hrow, congrArg Prod.fst hpair, congrArg Prod.snd hpair⟩

theorem chain_drafts_written (requests : List PresentedRequest) :
    WrittenIn chainPython plainHasher issuanceStart (byRoot chainDraft :: requests) "rul_1" := by
  obtain ⟨u, row, hu, hrow, -, -⟩ := chain_drafts
  exact ⟨[], _, requests, issuanceStart, u, rfl, rfl, hu, row, hrow, nofun⟩

theorem no_self_approval_own : ∃ u row,
    run (serviceStep chainPython plainHasher) issuanceStart ownApproval = some u ∧
      u.db.rules.find? "rul_1" = some row ∧ row.Unapproved := by
  have heval : ((run (serviceStep chainPython plainHasher) issuanceStart ownApproval).bind
      fun u => (u.db.rules.find? "rul_1").map (·.id)) = some "rul_1" := by
    decide +kernel
  obtain ⟨u, hu, hrow⟩ := Option.bind_eq_some_iff.mp heval
  obtain ⟨row, hrow, -⟩ := Option.map_eq_some_iff.mp hrow
  have hguard : ApprovesOnlyOwn chainPython plainHasher issuanceStart ownApproval := by
    intro pre p post v key ruleId reason now row hsplit hpre hpresents hrequest hmay hwritten
      hfound htenant
    rcases pre with _ | ⟨first, _ | ⟨second, pre⟩⟩
    · cases hsplit
      cases hrequest
    · cases hsplit
      cases hrequest
      obtain ⟨v', row', hv', hrow', hcreated, hkeys⟩ := chain_drafts
      obtain ⟨_, hv, hnil⟩ := run_cons_eq_some.mp hpre
      cases hnil
      cases hv'.symm.trans hv
      cases hrow'.symm.trans hfound
      have hmem := List.mem_map_of_mem (f := ApiKey.id)
        (Table.find?_eq_some_iff.mp hpresents.row.1).1
      rw [hkeys] at hmem
      rw [hcreated, List.mem_singleton.mp hmem]
    · simp [ownApproval] at hsplit
  exact ⟨u, row, hu, hrow, no_self_approval hu (by decide) (madeByChain_of_only rfl) hguard
    (List.append_nil _).symm hu (chain_drafts_written _) hrow⟩

theorem sibling_approves : ∃ u row,
    run (serviceStep chainPython plainHasher) issuanceStart siblingApproval = some u ∧
      ¬ may rootKey.role .emergencyOverride ∧
      MadeByChain chainPython plainHasher issuanceStart siblingApproval rootKey ∧
      WrittenIn chainPython plainHasher issuanceStart siblingApproval "rul_1" ∧
      u.db.rules.find? "rul_1" = some row ∧ row.approvedBy = "key_1" ∧ row.state = .active := by
  have heval : ((run (serviceStep chainPython plainHasher) issuanceStart siblingApproval).bind
      fun u => (u.db.rules.find? "rul_1").map fun row => (row.approvedBy, row.state)) =
        some ("key_1", .active) := by
    decide +kernel
  obtain ⟨u, hu, hrow⟩ := Option.bind_eq_some_iff.mp heval
  obtain ⟨row, hrow, hpair⟩ := Option.map_eq_some_iff.mp hrow
  exact ⟨u, row, hu, by decide, madeByChain_of_only rfl, chain_drafts_written _, hrow,
    congrArg Prod.fst hpair, congrArg Prod.snd hpair⟩

end ComplyLayer
