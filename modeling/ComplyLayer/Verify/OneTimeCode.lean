import ComplyLayer.Dashboard.SignIn
import ComplyLayer.Theory.Runs

/-!
# A one-time code is accepted once

Requests of the dashboard come in, from any sessions and at any times, and the codes that are
accepted are noted. A code that `verify` accepts is burned for as long as it can be valid, so the
same text is not accepted again (`accepted_once`). Burning goes by the text of a code and
acceptance by its normal form, and `enrol` burns nothing: a code is accepted twice in two spellings
(`accepted_in_two_spellings`), and at `verify` after `enrol` (`accepted_after_enrolment`).
-/

namespace ComplyLayer

open Theory Redis

/-- The code is the one of the time step `k`, which the moment is in or next to. -/
def Totp.Valid (totp : Totp) (secret code : String) (moment : ℚ) (k : Int) : Prop :=
  k - 1 ≤ timecode moment ∧ timecode moment ≤ k + 1 ∧
    totp.normalize code = totp.normalize (totp.digits secret k)

instance (totp : Totp) (secret code : String) (moment : ℚ) (k : Int) :
    Decidable (totp.Valid secret code moment k) := inferInstanceAs (Decidable (_ ∧ _ ∧ _))

theorem Totp.verify_iff {totp : Totp} :
    totp.verify secret code moment = true ↔ ∃ k, totp.Valid secret code moment k := by
  rw [verify, List.any_eq_true]
  constructor
  · rintro ⟨i, hi, hcode⟩
    have hbounds : -1 ≤ i ∧ i ≤ 1 := by
      rcases hi with _ | ⟨_, _ | ⟨_, _ | ⟨_, h⟩⟩⟩
      · decide
      · decide
      · decide
      · cases h
    exact ⟨timecode moment + i, by omega, by omega, of_decide_eq_true hcode⟩
  · rintro ⟨k, hlow, hhigh, hcode⟩
    have hstep : k = timecode moment - 1 ∨ k = timecode moment ∨ k = timecode moment + 1 := by
      omega
    refine ⟨k - timecode moment, ?_, ?_⟩
    · rcases hstep with rfl | rfl | rfl
      · simp
      · simp
      · simp
    · rw [add_sub_cancel]
      exact decide_eq_true hcode

/-- A code is valid for less than the time it is burned for. -/
theorem Totp.Valid.lt_add (h : Totp.Valid totp secret code moment k)
    (h' : Totp.Valid totp' secret' code' moment' k) : moment' < moment + codeReplaySeconds := by
  have hlow : ((k - 1 : Int) : ℚ) ≤ moment / 30 := Int.le_floor.mp h.1
  have hhigh : moment' / 30 < ((k + 2 : Int) : ℚ) := by
    have hstep : ⌊moment' / 30⌋ ≤ k + 1 := h'.2.1
    exact Int.floor_lt.mp (by omega)
  rw [codeReplaySeconds]
  push_cast at hlow hhigh ⊢
  linarith

/-! ## What is accepted -/

/-- A code that was accepted, for the account as it is from then on. -/
structure Acceptance where
  profile : DashboardUser
  /-- It was `enrol` that accepted it, not `verify`. -/
  enrolling : Bool
  code : String
  moment : ℚ
  deriving DecidableEq

def Acceptance.Valid (totp : Totp) (a : Acceptance) (k : Int) : Prop :=
  totp.Valid a.profile.totpSecret a.code a.moment k

instance (totp : Totp) (a : Acceptance) (k : Int) : Decidable (a.Valid totp k) :=
  inferInstanceAs (Decidable (totp.Valid ..))

def DashboardRequest.enrolling : DashboardRequest → Bool
  | enrol _ _ => true
  | _ => false

/-- The code that is accepted where a view goes on to the rules. -/
def noted (moment : ℚ) (session : Nat) (request : DashboardRequest) (s : DashboardState)
    (response : DashboardResponse) : Option Acceptance :=
  if response = .redirect "dashboard:rules" then
    (s.currentProfile session).bind fun profile =>
      request.codes.head?.map fun code => ⟨profile, request.enrolling, code, moment⟩
  else none

/-- The code a step accepts. -/
def acceptance (rt : SignInRuntime) (s : DashboardState) : DashboardStep → Option Acceptance
  | .elapse _ => none
  | .request session redis request =>
    noted s.server.now session request (serveDashboard rt s session redis request).1
      (serveDashboard rt s session redis request).2

/-- The dashboard, and the codes it accepted. The newest is first. -/
structure Accepting where
  state : DashboardState
  accepted : List Acceptance := []

def acceptingStep (rt : SignInRuntime) (w : Accepting) (a : DashboardStep) : Option Accepting :=
  (dashboardStep rt w.state a).map fun s =>
    { state := s, accepted := (acceptance rt w.state a).toList ++ w.accepted }

/-- The code of every time step was accepted at most once for the account of a user. -/
def AcceptedOnce (rt : SignInRuntime) (w : Accepting) : Prop :=
  ∀ (user : Nat) (k : Int),
    w.accepted.countP (fun a => a.profile.user = user ∧ a.Valid rt.totp k) ≤ 1

/-- Redis answers the request. -/
def DashboardStep.Reachable : DashboardStep → Prop
  | .elapse _ => True
  | .request _ redis _ => redis = true

/-- A code of the account of which the time step was accepted before comes to `verify` in the
spelling that `verify` accepted. -/
def SameSpelling (rt : SignInRuntime) (w : Accepting) : DashboardStep → Prop
  | .request session _ (.verify (some code)) => ∀ a ∈ w.accepted, ∀ k,
      w.state.currentProfile session = some a.profile → a.Valid rt.totp k →
      rt.totp.Valid a.profile.totpSecret code w.state.server.now k →
      a.enrolling = false ∧ a.code = code
  | _ => True

section
variable {rt : SignInRuntime} {s s' : DashboardState} {w w' : Accepting}

theorem noted_rules (request : DashboardRequest) (profile : DashboardUser) (code : String)
    (hcode : request.codes.head? = some code) (hcurrent : s.currentProfile session = some profile) :
    noted moment session request s (.redirect "dashboard:rules") =
      some ⟨profile, request.enrolling, code, moment⟩ := by
  rw [noted, if_pos rfl, hcurrent, hcode]
  rfl

theorem Throttle.consumeCode_fresh (throttle : Throttle) (server : Server) (code : String)
    (h : (throttle.consumeCode server code).2 = true) :
    server.find? (throttle.replayKey code) = none ∧
      (throttle.consumeCode server code).1.find? (throttle.replayKey code) =
        some ⟨.text "1", some (server.now + codeReplaySeconds)⟩ := by
  cases hfind : server.find? (throttle.replayKey code) with
  | some entry =>
    have hexec : server.exec (.setNxEx (throttle.replayKey code) "1" codeReplaySeconds) =
        (server, .nil) := by
      simp only [Server.exec, hfind]
    rw [consumeCode, hexec] at h
    cases h
  | none =>
    refine ⟨rfl, ?_⟩
    rw [consumeCode_server]
    simp only [Server.exec, hfind]
    have hset := server.writes_set (throttle.replayKey code)
      (some ⟨.text "1", some (server.now + codeReplaySeconds)⟩)
    rw [hset.self]
    refine Option.filter_eq_some_iff.mpr ⟨rfl, decide_eq_true ?_⟩
    exact lt_add_of_pos_right _ (by decide)

/-- An account with a second factor is left as it is. -/
theorem Served.account (hserved : Served rt s session redis request s' response)
    (h : s.profiles.find? profile.user = some profile) (hfactor : profile.hasSecondFactor = true) :
    s'.profiles.find? profile.user = some profile := by
  have hsave {current saved : DashboardUser} (hcurrent : s.currentProfile session = some current)
      (hnone : ¬ current.hasSecondFactor = true) (huser : saved.user = current.user) :
      (s.save saved).profiles.find? profile.user = some profile := by
    have hother : profile.user ≠ saved.user := fun hsame => by
      have hfound := (currentProfile_user hcurrent).2
      rw [← huser, ← hsame, h] at hfound
      cases hfound
      exact hnone hfactor
    exact (Table.find?_put_of_ne hother).trans h
  cases hserved with
  | offered hcurrent hnone huser => exact hsave hcurrent hnone huser
  | confirmed hcurrent hnone => exact hsave hcurrent hnone rfl
  | unchanged | signedIn | verified | signedOut | body => exact h

theorem Served.keeps (hserved : Served rt s session redis request s' response) :
    Keeps s.server s'.server := by
  cases hserved with
  | unchanged _ hkeeps => exact hkeeps
  | signedIn _ hkeeps => exact hkeeps
  | verified => exact (Keeps.consume ..).trans (.clear ..)
  | offered | confirmed | signedOut | body => exact .rfl

/-- The codes that were accepted so far. -/
structure AcceptingInvariant (rt : SignInRuntime) (w : Accepting) : Prop where
  moment : ∀ a ∈ w.accepted, a.moment ≤ w.state.server.now
  account : ∀ a ∈ w.accepted, w.state.profiles.find? a.profile.user = some a.profile ∧
    a.profile.hasSecondFactor = true
  /-- What `verify` accepted is burned. -/
  burned : ∀ a ∈ w.accepted, a.enrolling = false →
    w.state.server.now < a.moment + codeReplaySeconds →
    w.state.server.find? ((codeThrottle rt a.profile).replayKey a.code) =
      some ⟨.text "1", some (a.moment + codeReplaySeconds)⟩
  once : AcceptedOnce rt w

namespace AcceptingInvariant

theorem elapse (h : AcceptingInvariant rt w) (hseconds : 0 ≤ seconds) :
    AcceptingInvariant rt
      { w with state := { w.state with server := w.state.server.elapse seconds } } where
  moment a ha := (h.moment a ha).trans (le_add_of_nonneg_right hseconds)
  account := h.account
  burned a ha henrolling hlive := by
    have hburned := h.burned a ha henrolling (lt_of_le_of_lt (le_add_of_nonneg_right hseconds) hlive)
    rw [Server.find?_elapse_of_lt hseconds, hburned]
    intro deadline hdeadline
    rw [Server.deadline?_of_find? hburned] at hdeadline
    cases hdeadline
    exact hlive
  once := h.once

/-- A request that accepts nothing. -/
theorem other (h : AcceptingInvariant rt w)
    (hserved : Served rt w.state session redis request s' response) :
    AcceptingInvariant rt { w with state := s' } where
  moment a ha := (h.moment a ha).trans_eq hserved.keeps.now.symm
  account a ha := ⟨hserved.account (h.account a ha).1 (h.account a ha).2, (h.account a ha).2⟩
  burned a ha henrolling hlive := by
    rw [hserved.keeps.now] at hlive
    exact hserved.keeps.burned _ _ _ (h.burned a ha henrolling hlive)
  once := h.once

/-- A code is accepted that was not accepted before. -/
theorem accept (h : AcceptingInvariant rt w) (hmoment : a.moment = w.state.server.now)
    (haccount : w.state.profiles.find? a.profile.user = some a.profile ∧
      a.profile.hasSecondFactor = true)
    (hburned : a.enrolling = false →
      w.state.server.find? ((codeThrottle rt a.profile).replayKey a.code) =
        some ⟨.text "1", some (a.moment + codeReplaySeconds)⟩)
    (hnew : ∀ b ∈ w.accepted, ∀ k, b.profile.user = a.profile.user → b.Valid rt.totp k →
      ¬ a.Valid rt.totp k) :
    AcceptingInvariant rt { w with accepted := a :: w.accepted } where
  moment := List.forall_mem_cons.mpr ⟨hmoment.le, h.moment⟩
  account := List.forall_mem_cons.mpr ⟨haccount, h.account⟩
  burned := List.forall_mem_cons.mpr ⟨fun henrolling _ => hburned henrolling, h.burned⟩
  once user k := by
    rw [List.countP_cons]
    split
    · rename_i hboth
      obtain ⟨rfl, hvalid⟩ := of_decide_eq_true hboth
      have hzero : w.accepted.countP
          (fun b => b.profile.user = a.profile.user ∧ b.Valid rt.totp k) = 0 := by
        refine List.countP_eq_zero.mpr fun b hb hboth => ?_
        obtain ⟨huser, hbefore⟩ := of_decide_eq_true hboth
        exact hnew b hb k huser hbefore hvalid
      rw [hzero]
    · exact h.once user k

theorem served (h : AcceptingInvariant rt w)
    (hserved : Served rt w.state session true request s' response)
    (hspelling : SameSpelling rt w (.request session true request)) :
    AcceptingInvariant rt
      { state := s'
        accepted := (noted w.state.server.now session request s' response).toList ++ w.accepted } := by
  have hother := h.other hserved
  cases hserved with
  | unchanged hresponse =>
    rw [noted, if_neg hresponse.1]
    exact hother
  | @verified profile code hcurrent hfactor hfresh =>
    obtain ⟨huser, hfound⟩ := currentProfile_user hcurrent
    obtain ⟨hnone, hburned⟩ := Throttle.consumeCode_fresh _ _ _ hfresh
    rw [noted_rules (.verify (some code)) profile code rfl]
    swap
    · exact (currentProfile_setSession ..).trans hcurrent
    refine hother.accept ((Keeps.consume ..).trans (.clear ..)).now.symm ⟨hfound, hfactor⟩
      (fun _ => (Keeps.clear ..).burned _ _ _ hburned) fun b hb k hsame hbefore hvalid => ?_
    -- The account is as it was, so it is the same code, and it would still be burned.
    have hprofile : b.profile = profile := by
      have hbfound := (h.account b hb).1
      rw [hsame, hfound] at hbfound
      exact (Option.some.inj hbfound).symm
    subst hprofile
    obtain ⟨henrolling, rfl⟩ := hspelling b hb k hcurrent hbefore hvalid
    rw [h.burned b hb henrolling (hbefore.lt_add hvalid)] at hnone
    cases hnone
  | @confirmed profile code drawn hcurrent hnone hsecret =>
    obtain ⟨huser, hfound⟩ := currentProfile_user hcurrent
    let saved : DashboardUser := { profile with totpConfirmedAt := some w.state.server.now }
    have hsaved : (w.state.profiles.put saved).find? profile.user = some saved :=
      Table.find?_put_self (by rw [hfound]; rfl)
    rw [noted_rules (.enrol (some code) drawn) saved code rfl]
    swap
    · refine (currentProfile_setSession ..).trans ?_
      rw [huser]
      exact hsaved
    refine hother.accept rfl ⟨hsaved, ?_⟩ (fun hfalse => by cases hfalse)
      fun b hb k hsame _ _ => ?_
    · exact Bool.and_eq_true_iff.mpr ⟨decide_eq_true hsecret, rfl⟩
    -- An account that a code was accepted for has its second factor.
    have hbfound := (h.account b hb).1
    rw [hsame, hfound] at hbfound
    cases hbfound
    exact hnone (h.account b hb).2
  | signedIn | offered | signedOut | body => exact hother

theorem step (h : AcceptingInvariant rt w) (hreachable : a.Reachable)
    (hspelling : SameSpelling rt w a) (hstep : acceptingStep rt w a = some w') :
    AcceptingInvariant rt w' := by
  obtain ⟨s', hs', rfl⟩ := Option.map_eq_some_iff.mp hstep
  cases a with
  | elapse seconds =>
    rw [dashboardStep] at hs'
    split at hs'
    · rename_i hseconds
      cases hs'
      exact h.elapse hseconds
    · cases hs'
  | request session redis request =>
    cases hs'
    have hredis : redis = true := hreachable
    subst hredis
    exact h.served (ComplyLayer.served request) hspelling

end AcceptingInvariant

/-- The flag of a session is set where a code is accepted in it, and nowhere else. -/
theorem accepted_of_secondFactor (hbefore : (s.sessions other).secondFactor = false)
    (hafter : ((serveDashboard rt s session redis request).1.sessions other).secondFactor = true) :
    other = session ∧ (acceptance rt s (.request session redis request)).isSome := by
  rw [acceptance]
  have hserved : Served rt s session redis request _ _ := served request
  generalize (serveDashboard rt s session redis request).1 = s' at hserved hafter ⊢
  generalize (serveDashboard rt s session redis request).2 = response at hserved ⊢
  have hset {value : DashboardSession}
      (hflag : ((s.setSession session value).sessions other).secondFactor = true) :
      other = session ∧ value.secondFactor = true := by
    change (if other = session then value else s.sessions other).secondFactor = true at hflag
    split at hflag
    · rename_i hsame
      exact ⟨hsame, hflag⟩
    · rw [hbefore] at hflag
      cases hflag
  cases hserved with
  | unchanged | offered | body => cases hbefore.symm.trans hafter
  | signedIn => cases (hset hafter).2
  | signedOut => cases (hset hafter).2
  | @verified profile code hcurrent =>
    refine ⟨(hset hafter).1, ?_⟩
    rw [noted_rules (.verify (some code)) profile code rfl]
    · rfl
    · exact (currentProfile_setSession ..).trans hcurrent
  | @confirmed profile code drawn hcurrent =>
    obtain ⟨huser, hfound⟩ := currentProfile_user hcurrent
    let saved : DashboardUser := { profile with totpConfirmedAt := some s.server.now }
    have hsaved : (s.save saved).profiles.find? profile.user = some saved :=
      Table.find?_put_self (by rw [hfound]; rfl)
    refine ⟨(hset hafter).1, ?_⟩
    rw [noted_rules (.enrol (some code) drawn) saved code rfl]
    · rfl
    · refine (currentProfile_setSession ..).trans ?_
      rw [huser]
      exact hsaved

end

/-- Where Redis is reachable, and an accepted code comes again only as `verify` accepted it, the code
of a time step is accepted once. -/
theorem accepted_once {rt : SignInRuntime} (hstart : start.accepted = [])
    (hrun : run (acceptingStep rt) start steps = some w) (hreachable : ∀ a ∈ steps, a.Reachable)
    (hspelling : Along (acceptingStep rt) (SameSpelling rt) start steps) : AcceptedOnce rt w := by
  have hinvariant : AcceptingInvariant rt start := by
    constructor
    · rw [hstart]
      exact fun a ha => absurd ha List.not_mem_nil
    · rw [hstart]
      exact fun a ha => absurd ha List.not_mem_nil
    · rw [hstart]
      exact fun a ha => absurd ha List.not_mem_nil
    · intro user k
      rw [hstart]
      exact Nat.zero_le 1
  have hguard : Along (acceptingStep rt) (fun w a => a.Reachable ∧ SameSpelling rt w a) start steps :=
    (along_of_forall fun a ha _ => hreachable a ha).and hspelling
  exact (hguard.invariant (fun _ _ _ h hboth => h.step hboth.1 hboth.2) hinvariant hrun).once

/-- A person who enrolled. -/
def accountHolder : DashboardUser :=
  { pk := 1, user := 1, totpSecret := "JBSWY3DPEHPK3PXP", totpConfirmedAt := some 0 }

/-- In the first time step the code is `123456`, and fullwidth digits are digits. -/
def fullwidth : SignInRuntime :=
  { totp :=
      { normalize := fun text => if text = "１２３４５６" then "123456" else text
        digits := fun _ k => if k = 0 then "123456" else "654321" }
    authenticate := fun _ _ => some 1
    digest := id }

def holderStart (profile : DashboardUser) : Accepting :=
  { state := { profiles := (∅ : Table DashboardUser.user).getOrCreate profile } }

/-- The password, and then the codes. -/
def presenting (codes : List String) : List DashboardStep :=
  .request 0 true (.signIn (some ("ada@example.com", "correct horse"))) ::
    codes.map fun code => .request 0 true (.verify (some code))

theorem reachable_presenting (codes : List String) : ∀ a ∈ presenting codes, a.Reachable := by
  refine List.forall_mem_cons.mpr ⟨rfl, fun a ha => ?_⟩
  obtain ⟨code, -, rfl⟩ := List.mem_map.mp ha
  rfl

/-- The same text is not accepted again. -/
theorem accepted_once_repeated : ∃ w,
    run (acceptingStep fullwidth) (holderStart accountHolder) (presenting ["123456", "123456"]) = some w ∧
      w.accepted.length = 1 ∧ AcceptedOnce fullwidth w := by
  have haccepted : Along (acceptingStep fullwidth)
      (fun w _ => ∀ a ∈ w.accepted, a.enrolling = false ∧ a.code = "123456")
      (holderStart accountHolder) (presenting ["123456", "123456"]) := by decide +kernel
  have htexts : Along (acceptingStep fullwidth) (fun _ a => ∀ session redis code,
      a = .request session redis (.verify (some code)) → code = "123456")
      (holderStart accountHolder) (presenting ["123456", "123456"]) := by
    refine along_of_forall fun a ha _ session redis code hcode => ?_
    rcases List.mem_cons.mp (hcode ▸ ha) with h | h
    · cases h
    · obtain ⟨_, htext, h⟩ := List.mem_map.mp h
      cases h
      simpa using htext
  have hspelling : Along (acceptingStep fullwidth) (SameSpelling fullwidth)
      (holderStart accountHolder) (presenting ["123456", "123456"]) := by
    refine (haccepted.and htexts).imp fun w a h => ?_
    unfold SameSpelling
    split
    · rename_i session redis code
      intro a ha _ _ _ _
      rw [h.2 session redis code rfl]
      exact h.1 a ha
    · trivial
  exact ⟨_, rfl, by decide +kernel,
    accepted_once rfl rfl (reachable_presenting _) hspelling⟩

/-- The same digits in another script are. -/
theorem accepted_in_two_spellings : ¬ ∀ (rt : SignInRuntime) (start w : Accepting)
    (steps : List DashboardStep), start.accepted = [] →
    run (acceptingStep rt) start steps = some w → (∀ a ∈ steps, a.Reachable) →
    AcceptedOnce rt w := by
  intro h
  have honce := h fullwidth (holderStart accountHolder) _ (presenting ["123456", "１２３４５６"]) rfl rfl
    (reachable_presenting _) 1 0
  exact absurd honce (by decide +kernel)

/-- A code that enrolled an authenticator is accepted by `verify`. -/
theorem accepted_after_enrolment : ∃ w,
    run (acceptingStep fullwidth)
      (holderStart { accountHolder with totpConfirmedAt := none })
      [.request 0 true (.signIn (some ("ada@example.com", "correct horse"))),
        .request 0 true (.enrol (some "123456") ""), .request 0 true (.verify (some "123456"))] =
      some w ∧ ¬ AcceptedOnce fullwidth w := by
  refine ⟨_, rfl, fun honce => absurd (honce 1 0) (by decide +kernel)⟩

end ComplyLayer
