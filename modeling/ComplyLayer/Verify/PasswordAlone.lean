import ComplyLayer.Dashboard.SignIn
import ComplyLayer.Theory.Runs

/-!
# A password alone never signs in

Somebody who has the password of an account, and any accounts of their own, sends the requests of
the dashboard in any order and from any sessions, but presents no code that is valid for the
account. The account keeps its authenticator, no session has both factors for it, and no view runs
for it (`password_alone`).
-/

namespace ComplyLayer

open Theory Redis

/-- Both factors of the user were given in the session. -/
def DashboardSession.SignedIn (session : DashboardSession) (user : Nat) : Prop :=
  session.user = some user ∧ session.secondFactor = true

/-- The account is as it was, and nobody is signed in to it. -/
structure Shut (profile : DashboardUser) (s : DashboardState) : Prop where
  account : s.profiles.find? profile.user = some profile
  sessions : ∀ session, ¬ (s.sessions session).SignedIn profile.user

section
variable {rt : SignInRuntime} {profile other : DashboardUser} {s s' : DashboardState}

namespace Shut

/-- What the throttle writes is no matter. -/
theorem setServer (h : Shut profile s) (server : Server) :
    Shut profile { s with server := server } := ⟨h.account, h.sessions⟩

theorem setSession (h : Shut profile s) (hvalue : ¬ value.SignedIn profile.user) :
    Shut profile (s.setSession session value) := by
  refine ⟨h.account, fun other => ?_⟩
  change ¬ (if other = session then value else s.sessions other).SignedIn profile.user
  split
  · exact hvalue
  · exact h.sessions other

/-- Another account is saved. -/
theorem save (h : Shut profile s) (hother : other.user ≠ profile.user) :
    Shut profile (s.save other) := by
  refine ⟨?_, h.sessions⟩
  exact (Table.find?_put_of_ne (Ne.symm hother)).trans h.account

/-- The account of a session is this one, with its second factor, or another one. -/
theorem currentProfile (h : Shut profile s) (hcurrent : s.currentProfile session = some other) :
    other = profile ∧ (s.sessions session).user = some profile.user ∨
      other.user ≠ profile.user ∧ (s.sessions session).user = some other.user := by
  obtain ⟨huser, hfound⟩ := currentProfile_user hcurrent
  by_cases hsame : other.user = profile.user
  · rw [hsame, h.account] at hfound
    cases hfound
    exact .inl ⟨rfl, huser⟩
  · exact .inr ⟨hsame, huser⟩

/-- Whatever the request, if the codes it presents are not the account's. -/
theorem served (h : Shut profile s) (hserved : Served rt s session redis request s' response)
    (hfactor : profile.hasSecondFactor = true)
    (hcodes : ∀ code ∈ request.codes,
      rt.totp.verify profile.totpSecret code s.server.now = false) : Shut profile s' := by
  cases hserved with
  | unchanged => exact h.setServer _
  | signedIn user => exact (h.setSession fun hsigned => by cases hsigned.2).setServer _
  | @verified current code hcurrent _ _ hverify =>
    refine (h.setSession ?_).setServer _
    rcases h.currentProfile hcurrent with ⟨rfl, -⟩ | ⟨hother, huser⟩
    · rw [hcodes code (List.mem_singleton_self code)] at hverify
      cases hverify
    · -- The session is of another account.
      exact fun hsigned => hother (Option.some.inj (huser.symm.trans hsigned.1))
  | offered hcurrent hnone huser =>
    rcases h.currentProfile hcurrent with ⟨rfl, -⟩ | ⟨hother, -⟩
    · exact absurd hfactor hnone
    · exact h.save (huser ▸ hother)
  | @confirmed current _ _ hcurrent hnone =>
    rcases h.currentProfile hcurrent with ⟨rfl, -⟩ | ⟨hother, huser⟩
    · exact absurd hfactor hnone
    · have hsaved : Shut profile
          (s.save { current with totpConfirmedAt := some s.server.now }) := h.save hother
      exact hsaved.setSession fun hsigned => hother (Option.some.inj (huser.symm.trans hsigned.1))
  | signedOut => exact h.setSession fun hsigned => by cases hsigned.1
  | body => exact h

theorem step (h : Shut profile s) (hfactor : profile.hasSecondFactor = true)
    (hcodes : ∀ session redis request, a = .request session redis request →
      ∀ code ∈ request.codes, rt.totp.verify profile.totpSecret code s.server.now = false)
    (hstep : dashboardStep rt s a = some s') : Shut profile s' := by
  cases a with
  | elapse seconds =>
    rw [dashboardStep] at hstep
    split at hstep
    · cases hstep
      exact h.setServer _
    · cases hstep
  | request session redis request =>
    cases hstep
    exact h.served (ComplyLayer.served request) hfactor (hcodes session redis request rfl)

/-- No view runs for the account. -/
theorem not_body (h : Shut profile s)
    (hserved : Served rt s session redis request s' (.body other)) :
    other.user ≠ profile.user := by
  cases hserved with
  | unchanged hresponse => exact absurd rfl (hresponse.2 other)
  | body hcurrent hsecond =>
    rcases h.currentProfile hcurrent with ⟨-, huser⟩ | ⟨hother, -⟩
    · exact absurd ⟨huser, hsecond⟩ (h.sessions _)
    · exact hother

end Shut

end

/-- What a step answers, if it is a request. -/
def dashboardResponse (rt : SignInRuntime) (s : DashboardState) :
    DashboardStep → Option DashboardResponse
  | .elapse _ => none
  | .request session redis request => some (serveDashboard rt s session redis request).2

/-- A step presents no code that is valid for the account. -/
def NoValidCode (rt : SignInRuntime) (profile : DashboardUser) (s : DashboardState) :
    DashboardStep → Prop
  | .elapse _ => True
  | .request _ _ request => ∀ code ∈ request.codes,
      rt.totp.verify profile.totpSecret code s.server.now = false

/-- Without a code of the account nobody is signed in to it, its authenticator stays, and no view
runs for it. -/
theorem password_alone {rt : SignInRuntime} {profile : DashboardUser}
    (hprofile : start.profiles.find? profile.user = some profile)
    (hfactor : profile.hasSecondFactor = true)
    (hsessions : ∀ session, ¬ (start.sessions session).SignedIn profile.user)
    (hrun : run (dashboardStep rt) start steps = some s)
    (hcodes : Along (dashboardStep rt) (NoValidCode rt profile) start steps) :
    (∀ session, ¬ (s.sessions session).SignedIn profile.user) ∧
      s.profiles.find? profile.user = some profile ∧
      Along (dashboardStep rt) (fun s a => ∀ other,
        dashboardResponse rt s a = some (.body other) → other.user ≠ profile.user) start steps := by
  have hkeep (s : DashboardState) (a : DashboardStep) (s' : DashboardState)
      (h : Shut profile s) (hcode : NoValidCode rt profile s a)
      (hstep : dashboardStep rt s a = some s') : Shut profile s' := by
    refine h.step hfactor ?_ hstep
    rintro session redis request rfl
    exact hcode
  have hstart : Shut profile start := ⟨hprofile, hsessions⟩
  have hshut := hcodes.invariant hkeep hstart hrun
  refine ⟨hshut.sessions, hshut.account, along_iff_forall.mpr ?_⟩
  rintro before a after t rfl hbefore other hbody
  have ht := ((along_append hbefore).mp hcodes).1.invariant hkeep hstart hbefore
  cases a with
  | elapse seconds => cases hbody
  | request session redis request =>
    have hserved : Served rt t session redis request _ _ := served request
    rw [Option.some.inj hbody] at hserved
    exact ht.not_body hserved

/-- A person who enrolled. -/
def enrolled : DashboardUser :=
  { pk := 1, user := 1, totpSecret := "JBSWY3DPEHPK3PXP", totpConfirmedAt := some 0 }

/-- One code is valid for every secret, at any time. -/
def oneCode : SignInRuntime :=
  { totp := ⟨id, fun _ _ => "123456"⟩
    authenticate := fun _ password => if password = "correct horse" then some 1 else none
    digest := id }

/-- The password, a wrong code, the enrolment page, and a page of the dashboard. -/
def passwordOnly : List DashboardStep :=
  [.request 0 false (.signIn (some ("ada@example.com", "correct horse"))),
    .request 0 false (.verify (some "654321")), .request 0 false (.enrol none "NEWSECRET"),
    .request 0 false .signedIn]

/-- The password is right, and a code of the account would have been asked for. -/
theorem password_alone_correct : ∃ s,
    run (dashboardStep oneCode) { profiles := (∅ : Table DashboardUser.user).getOrCreate enrolled }
      passwordOnly = some s ∧
    (s.sessions 0).user = some 1 ∧ ¬ (s.sessions 0).SignedIn 1 ∧
      s.profiles.find? 1 = some enrolled := by
  refine ⟨_, rfl, by decide, ?_⟩
  have hcodes : Along (dashboardStep oneCode) (NoValidCode oneCode enrolled)
      { profiles := (∅ : Table DashboardUser.user).getOrCreate enrolled } passwordOnly :=
    along_of_forall fun a ha s => by
      rcases ha with _ | ⟨_, _ | ⟨_, _ | ⟨_, _ | ⟨_, h⟩⟩⟩⟩
      · exact fun code hcode => absurd hcode List.not_mem_nil
      · intro code hcode
        rw [List.mem_singleton.mp hcode]
        rfl
      · exact fun code hcode => absurd hcode List.not_mem_nil
      · exact fun code hcode => absurd hcode List.not_mem_nil
      · cases h
  have hprofile : ((∅ : Table DashboardUser.user).getOrCreate enrolled).find? enrolled.user =
      some enrolled := rfl
  have halone := password_alone hprofile rfl (fun session hsigned => by cases hsigned.1) rfl hcodes
  exact ⟨halone.1 0, halone.2.1⟩

end ComplyLayer
