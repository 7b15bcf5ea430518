import ComplyLayer.Dashboard.Throttle
import ComplyLayer.Theory.Table
import Mathlib.Data.Rat.Floor

/-!
# Signing in to the dashboard

`dashboard/auth.py`, and the views of `dashboard/views.py` that sign a person in: a password, then
a code, with the session marked at each.
-/

namespace ComplyLayer

open Theory Redis

/-! ## Accounts and sessions -/

/-- `DashboardUser`. -/
structure DashboardUser where
  pk : Nat
  /-- The Django user. -/
  user : Nat
  totpSecret : String := ""
  totpConfirmedAt : Option ℚ := none
  deriving DecidableEq

def DashboardUser.hasSecondFactor (profile : DashboardUser) : Bool :=
  profile.totpSecret ≠ "" && profile.totpConfirmedAt.isSome

/-- What a session remembers: the Django user, and `SESSION_FACTOR_KEY`. -/
structure DashboardSession where
  user : Option Nat := none
  secondFactor : Bool := false
  deriving DecidableEq

/-- The codes of `pyotp`. -/
structure Totp where
  /-- `unicodedata.normalize("NFKC", text)`. -/
  normalize : String → String
  /-- The digits of a secret in a time step. -/
  digits : String → Int → String

/-- The time step of a moment. -/
def timecode (moment : ℚ) : Int := ⌊moment / 30⌋

/-- `pyotp.TOTP(secret).verify(code, valid_window=1)`. -/
def Totp.verify (totp : Totp) (secret code : String) (moment : ℚ) : Bool :=
  [-1, 0, 1].any fun i =>
    totp.normalize code = totp.normalize (totp.digits secret (timecode moment + i))

structure SignInRuntime where
  totp : Totp
  /-- `django.contrib.auth.authenticate`. -/
  authenticate : String → String → Option Nat
  /-- `hashlib.sha256(text.encode()).hexdigest()[:32]`. -/
  digest : String → String

/-- The accounts, the sessions, and the server that throttles. Its clock is everybody's. -/
structure DashboardState where
  profiles : Table DashboardUser.user
  sessions : Nat → DashboardSession := fun _ => {}
  server : Server := {}

namespace DashboardState

/-- `current_profile`. -/
def currentProfile (s : DashboardState) (session : Nat) : Option DashboardUser :=
  (s.sessions session).user.bind s.profiles.find?

def setSession (s : DashboardState) (session : Nat) (value : DashboardSession) : DashboardState :=
  { s with sessions := fun other => if other = session then value else s.sessions other }

def save (s : DashboardState) (profile : DashboardUser) : DashboardState :=
  { s with profiles := s.profiles.put profile }

end DashboardState

/-! ## The two factors -/

/-- `django_login`: the session of another user is emptied first. -/
def djangoLogin (session : DashboardSession) (user : Nat) : DashboardSession :=
  match session.user with
  | some other => if other ≠ user then { user := some user } else session
  | none => { session with user := some user }

section
variable (rt : SignInRuntime)

/-- `start_session`, `none` where it raises `SignInFailed`. -/
def startSession (s : DashboardState) (session : Nat) (email password : String) :
    Option DashboardState :=
  match rt.authenticate email password with
  | none => none
  | some user =>
    match s.profiles.find? user with
    | none => none
    | some _ =>
      some (s.setSession session
        { djangoLogin (s.sessions session) user with secondFactor := false })

/-- `verify_second_factor`. -/
def verifySecondFactor (s : DashboardState) (session : Nat) (profile : DashboardUser)
    (code : String) : Option DashboardState :=
  if profile.totpSecret = "" then none
  else if rt.totp.verify profile.totpSecret code s.server.now then
    some (s.setSession session { s.sessions session with secondFactor := true })
  else none

/-- `profile.totp_secret or pyotp.random_base32()`. -/
def DashboardUser.enrolmentSecret (profile : DashboardUser) (drawn : String) : String :=
  if profile.totpSecret = "" then drawn else profile.totpSecret

/-- `begin_enrolment`, with the secret it draws; `none` where it raises `AlreadyEnrolled`. -/
def beginEnrolment (s : DashboardState) (profile : DashboardUser) (drawn : String) :
    Option DashboardState :=
  if profile.hasSecondFactor then none
  else if profile.totpSecret ≠ profile.enrolmentSecret drawn ∨ profile.totpConfirmedAt ≠ none then
    some (s.save
      { profile with totpSecret := profile.enrolmentSecret drawn, totpConfirmedAt := none })
  else some s

/-- `confirm_enrolment`. -/
def confirmEnrolment (s : DashboardState) (profile : DashboardUser) (code : String) :
    Option DashboardState :=
  if profile.totpSecret = "" then none
  else if rt.totp.verify profile.totpSecret code s.server.now then
    some (s.save { profile with totpConfirmedAt := some s.server.now })
  else none

end

/-! ## The views -/

/-- What a view answers. -/
inductive DashboardResponse where
  | page (status : Nat)
  | redirect (view : String)
  /-- The body of a `signed_in` view runs for this person. -/
  | body (profile : DashboardUser)
  | raised
  deriving DecidableEq

/-- A request, with what it posts. -/
inductive DashboardRequest where
  | signIn (post : Option (String × String))
  | verify (post : Option String)
  /-- With the secret that is drawn if one is needed. -/
  | enrol (post : Option String) (drawn : String)
  | signOut
  | signedIn

/-- The codes a request presents. -/
def DashboardRequest.codes : DashboardRequest → List String
  | verify (some code) | enrol (some code) _ => [code]
  | _ => []

namespace Throttle

/-- `lockout_seconds`, which is `0` where Redis is not reachable. -/
def waiting (throttle : Throttle) (redis : Bool) (server : Server) : Option Int :=
  if redis then throttle.lockoutSeconds server else some 0

/-- `record_failure`, of which only what it writes is used. -/
def fail (throttle : Throttle) (redis : Bool) (server : Server) : Server :=
  if redis then (throttle.recordFailure server).1 else server

/-- `clear`. -/
def clear (throttle : Throttle) (redis : Bool) (server : Server) : Server :=
  if redis then (server.exec (.del throttle.key)).1 else server

/-- `consume_code`, which burns nothing where Redis is not reachable. -/
def consume (throttle : Throttle) (redis : Bool) (server : Server) (code : String) :
    Server × Bool :=
  if redis then throttle.consumeCode server code else (server, true)

end Throttle

section
variable (rt : SignInRuntime) (s : DashboardState) (session : Nat) (redis : Bool)

/-- The throttle of the passwords of an address. -/
def passwordThrottle (email : String) : Throttle := ⟨rt.digest, .signIn, email⟩

/-- `sign_in`. -/
def signInView : Option (String × String) → DashboardState × DashboardResponse
  | none => (s, .page 200)
  | some (email, password) =>
    match (passwordThrottle rt email).waiting redis s.server with
    | none => (s, .raised)
    | some waiting =>
      if waiting ≠ 0 then (s, .page 429)
      else
        match startSession rt s session email password with
        | none =>
          ({ s with server := (passwordThrottle rt email).fail redis s.server }, .page 401)
        | some s' =>
          ({ s' with server := (passwordThrottle rt email).clear redis s'.server },
            .redirect "dashboard:verify")

/-- The throttle of the codes of an account. -/
def codeThrottle (profile : DashboardUser) : Throttle := ⟨rt.digest, .verify, toString profile.pk⟩

/-- A code for `verify`: it is burned, and checked if it was not burned before. -/
def spendCode (profile : DashboardUser) (code : String) : Option DashboardState :=
  if ((codeThrottle rt profile).consume redis s.server code).2 then
    verifySecondFactor rt
      { s with server := ((codeThrottle rt profile).consume redis s.server code).1 } session profile
      code
  else none

/-- What `verify` does with a code. -/
def answerCode (profile : DashboardUser) (code : String) : DashboardState × DashboardResponse :=
  match spendCode rt s session redis profile code with
  | some s' =>
    ({ s' with server := (codeThrottle rt profile).clear redis s'.server },
      .redirect "dashboard:rules")
  | none =>
    let burned := ((codeThrottle rt profile).consume redis s.server code).1
    ({ s with server := (codeThrottle rt profile).fail redis burned }, .page 401)

/-- `verify`. -/
def verifyView (post : Option String) : DashboardState × DashboardResponse :=
  match s.currentProfile session with
  | none => (s, .redirect "dashboard:sign-in")
  | some profile =>
    if ¬ profile.hasSecondFactor then (s, .redirect "dashboard:enrol")
    else
      match post with
      | none => (s, .page 200)
      | some code =>
        match (codeThrottle rt profile).waiting redis s.server with
        | none => (s, .raised)
        | some waiting =>
          if waiting ≠ 0 then (s, .page 429) else answerCode rt s session redis profile code

/-- `_enrolment_context`, and the page it is rendered in. -/
def enrolmentPage (profile : DashboardUser) (drawn : String) (status : Nat) :
    DashboardState × DashboardResponse :=
  match beginEnrolment s profile drawn with
  | none => (s, .raised)
  | some s' => (s', .page status)

/-- `enrol`. -/
def enrolView (post : Option String) (drawn : String) : DashboardState × DashboardResponse :=
  match s.currentProfile session with
  | none => (s, .redirect "dashboard:sign-in")
  | some profile =>
    if profile.hasSecondFactor then (s, .redirect "dashboard:verify")
    else
      match post with
      | none => enrolmentPage s profile drawn 200
      | some code =>
        match confirmEnrolment rt s profile code with
        | some s' =>
          (s'.setSession session { s'.sessions session with secondFactor := true },
            .redirect "dashboard:rules")
        | none => enrolmentPage s profile drawn 400

/-- A view under `signed_in`. -/
def signedInView : DashboardState × DashboardResponse :=
  match s.currentProfile session with
  | none => (s, .redirect "dashboard:sign-in")
  | some profile =>
    if ¬ profile.hasSecondFactor then (s, .redirect "dashboard:enrol")
    else if ¬ (s.sessions session).secondFactor then (s, .redirect "dashboard:verify")
    else (s, .body profile)

def serveDashboard : DashboardRequest → DashboardState × DashboardResponse
  | .signIn post => signInView rt s session redis post
  | .verify post => verifyView rt s session redis post
  | .enrol post drawn => enrolView rt s session post drawn
  | .signOut => (s.setSession session {}, .redirect "dashboard:sign-in")
  | .signedIn => signedInView s session

end

/-- Time passes, or a request comes in, while Redis is reachable or not. -/
inductive DashboardStep where
  | elapse (seconds : ℚ)
  | request (session : Nat) (redis : Bool) (request : DashboardRequest)

def dashboardStep (rt : SignInRuntime) (s : DashboardState) :
    DashboardStep → Option DashboardState
  | .elapse seconds => if 0 ≤ seconds then some { s with server := s.server.elapse seconds } else none
  | .request session redis request => some (serveDashboard rt s session redis request).1

/-! ## What the factors write -/

section
variable {rt : SignInRuntime} {s s' : DashboardState} {profile : DashboardUser}

theorem currentProfile_user (h : s.currentProfile session = some profile) :
    (s.sessions session).user = some profile.user ∧
      s.profiles.find? profile.user = some profile := by
  obtain ⟨user, huser, hfound⟩ := Option.bind_eq_some_iff.mp h
  obtain ⟨-, rfl⟩ := Table.find?_eq_some_iff.mp hfound
  exact ⟨huser, hfound⟩

theorem currentProfile_setSession (s : DashboardState) (session : Nat)
    (value : DashboardSession) :
    (s.setSession session value).currentProfile session = value.user.bind s.profiles.find? := by
  rw [DashboardState.currentProfile, DashboardState.setSession]
  simp

theorem startSession_eq_some (h : startSession rt s session email password = some s') :
    ∃ user, s' = s.setSession session
      { djangoLogin (s.sessions session) user with secondFactor := false } := by
  unfold startSession at h
  split at h
  · cases h
  split at h
  · cases h
  · cases h
    exact ⟨_, rfl⟩

theorem verifySecondFactor_eq_some (h : verifySecondFactor rt s session profile code = some s') :
    rt.totp.verify profile.totpSecret code s.server.now = true ∧
      s' = s.setSession session { s.sessions session with secondFactor := true } := by
  unfold verifySecondFactor at h
  split at h
  · cases h
  split at h
  · rename_i hverify
    cases h
    exact ⟨hverify, rfl⟩
  · cases h

theorem spendCode_eq_some (h : spendCode rt s session redis profile code = some s') :
    ((codeThrottle rt profile).consume redis s.server code).2 = true ∧
      verifySecondFactor rt
        { s with server := ((codeThrottle rt profile).consume redis s.server code).1 } session
        profile code = some s' := by
  unfold spendCode at h
  split at h
  · rename_i hfresh
    exact ⟨hfresh, h⟩
  · cases h

/-- The account is saved, or was already as it would be. -/
theorem beginEnrolment_eq_some (h : beginEnrolment s profile drawn = some s') :
    s' = s ∨ ∃ saved : DashboardUser, saved.user = profile.user ∧ s' = s.save saved := by
  unfold beginEnrolment at h
  split at h
  · cases h
  split at h
  · cases h
    exact .inr ⟨{ profile with totpSecret := profile.enrolmentSecret drawn, totpConfirmedAt := none },
      rfl, rfl⟩
  · cases h
    exact .inl rfl

theorem confirmEnrolment_eq_some (h : confirmEnrolment rt s profile code = some s') :
    profile.totpSecret ≠ "" ∧ rt.totp.verify profile.totpSecret code s.server.now = true ∧
      s' = s.save { profile with totpConfirmedAt := some s.server.now } := by
  unfold confirmEnrolment at h
  split at h
  · cases h
  rename_i hsecret
  split at h
  · rename_i hverify
    cases h
    exact ⟨hsecret, hverify, rfl⟩
  · cases h

end

/-! ## What a request does -/

/-- No time passes, and what is burned stays so. -/
structure Keeps (r r' : Server) : Prop where
  now : r'.now = r.now
  burned : ∀ (throttle : Throttle) (code : String) (entry : Entry),
    r.find? (throttle.replayKey code) = some entry → r'.find? (throttle.replayKey code) = some entry

namespace Keeps

variable {r r' r'' : Server}

theorem rfl : Keeps r r := ⟨.refl _, fun _ _ _ h => h⟩

theorem trans (h : Keeps r r') (h' : Keeps r' r'') : Keeps r r'' where
  now := h'.now.trans h.now
  burned throttle code entry hentry := h'.burned throttle code entry (h.burned throttle code entry hentry)

/-- The counter of failures is under another key. -/
theorem exec (throttle : Throttle) (h : command.key = throttle.key) :
    Keeps r (r.exec command).1 where
  now := now_exec r command
  burned other code entry hentry := by
    rw [find?_exec_of_ne (h ▸ (throttle.key_ne_replayKey other code).symm)]
    exact hentry

theorem fail (throttle : Throttle) (redis : Bool) : Keeps r (throttle.fail redis r) := by
  cases redis with
  | false => exact rfl
  | true =>
    change Keeps r (throttle.recordFailure r).1
    have hincr : Keeps r (r.exec (.incr throttle.key)).1 := exec throttle (.refl _)
    unfold Throttle.recordFailure
    split
    · rename_i counted failures hexec
      rw [hexec] at hincr
      split
      · exact hincr.trans (exec throttle (.refl _))
      · exact hincr.trans (exec throttle (.refl _))
    · rename_i counted reply _ hexec
      rw [hexec] at hincr
      exact hincr

theorem clear (throttle : Throttle) (redis : Bool) : Keeps r (throttle.clear redis r) := by
  cases redis with
  | false => exact rfl
  | true => exact exec throttle (.refl _)

/-- A code that is burned is not burned again. -/
theorem consume (throttle : Throttle) (redis : Bool) (code : String) :
    Keeps r (throttle.consume redis r code).1 := by
  cases redis with
  | false => exact rfl
  | true =>
    change Keeps r (throttle.consumeCode r code).1
    rw [Throttle.consumeCode_server]
    refine ⟨now_exec .., fun other code' entry hentry => ?_⟩
    by_cases hkey : other.replayKey code' = throttle.replayKey code
    · rw [hkey] at hentry ⊢
      simp only [Server.exec, hentry]
    · rw [find?_exec_of_ne hkey]
      exact hentry

end Keeps

/-- The view neither goes on to the rules nor runs its body. -/
def DashboardResponse.Elsewhere (response : DashboardResponse) : Prop :=
  response ≠ .redirect "dashboard:rules" ∧ ∀ profile, response ≠ .body profile

section
variable (rt : SignInRuntime) (s : DashboardState) (session : Nat) (redis : Bool)

/-- What a request leaves, and answers. -/
inductive Served : DashboardRequest → DashboardState → DashboardResponse → Prop where
  | unchanged {request : DashboardRequest} {server : Server} {response : DashboardResponse}
      (hresponse : response.Elsewhere) (hkeeps : Keeps s.server server) :
      Served request { s with server := server } response
  | signedIn {email password : String} {server : Server} (user : Nat)
      (hkeeps : Keeps s.server server) :
      Served (.signIn (some (email, password)))
        { s.setSession session { djangoLogin (s.sessions session) user with secondFactor := false }
          with server := server } (.redirect "dashboard:verify")
  | verified {profile : DashboardUser} {code : String}
      (hcurrent : s.currentProfile session = some profile)
      (hfactor : profile.hasSecondFactor = true)
      (hfresh : ((codeThrottle rt profile).consume redis s.server code).2 = true)
      (hverify : rt.totp.verify profile.totpSecret code s.server.now = true) :
      Served (.verify (some code))
        { s.setSession session { s.sessions session with secondFactor := true } with
          server := (codeThrottle rt profile).clear redis
            ((codeThrottle rt profile).consume redis s.server code).1 }
        (.redirect "dashboard:rules")
  | offered {profile saved : DashboardUser} {post : Option String} {drawn : String} {status : Nat}
      (hcurrent : s.currentProfile session = some profile)
      (hnone : ¬ profile.hasSecondFactor = true) (huser : saved.user = profile.user) :
      Served (.enrol post drawn) (s.save saved) (.page status)
  | confirmed {profile : DashboardUser} {code drawn : String}
      (hcurrent : s.currentProfile session = some profile)
      (hnone : ¬ profile.hasSecondFactor = true) (hsecret : profile.totpSecret ≠ "")
      (hverify : rt.totp.verify profile.totpSecret code s.server.now = true) :
      Served (.enrol (some code) drawn)
        ((s.save { profile with totpConfirmedAt := some s.server.now }).setSession session
          { s.sessions session with secondFactor := true })
        (.redirect "dashboard:rules")
  | signedOut : Served .signOut (s.setSession session {}) (.redirect "dashboard:sign-in")
  | body {profile : DashboardUser} (hcurrent : s.currentProfile session = some profile)
      (hsecond : (s.sessions session).secondFactor = true) : Served .signedIn s (.body profile)

variable {rt s session redis}

theorem Served.page (status : Nat) : Served rt s session redis request s (.page status) :=
  .unchanged ⟨by simp, by simp⟩ .rfl

theorem Served.raised : Served rt s session redis request s .raised :=
  .unchanged ⟨by simp, by simp⟩ .rfl

theorem Served.redirect (h : view ≠ "dashboard:rules") :
    Served rt s session redis request s (.redirect view) :=
  .unchanged ⟨by simpa using h, by simp⟩ .rfl

theorem served_signIn (post : Option (String × String)) :
    Served rt s session redis (.signIn post) (signInView rt s session redis post).1
      (signInView rt s session redis post).2 := by
  unfold signInView
  split
  · exact .page _
  split
  · exact .raised
  split
  · exact .page _
  split
  · exact .unchanged ⟨by simp, by simp⟩ (.fail ..)
  · rename_i s' hstart
    obtain ⟨user, rfl⟩ := startSession_eq_some hstart
    exact .signedIn user (.clear ..)

theorem served_verify (post : Option String) :
    Served rt s session redis (.verify post) (verifyView rt s session redis post).1
      (verifyView rt s session redis post).2 := by
  unfold verifyView
  split
  · exact .redirect (by decide)
  rename_i profile hcurrent
  split
  · exact .redirect (by decide)
  rename_i hfactor
  split
  · exact .page _
  split
  · exact .raised
  split
  · exact .page _
  unfold answerCode
  split
  · rename_i s' hspend
    obtain ⟨hfresh, hsecond⟩ := spendCode_eq_some hspend
    obtain ⟨hverify, rfl⟩ := verifySecondFactor_eq_some hsecond
    rw [(Keeps.consume ..).now] at hverify
    exact .verified hcurrent (not_not.mp hfactor) hfresh hverify
  · exact .unchanged ⟨by simp, by simp⟩ ((Keeps.consume ..).trans (.fail ..))

theorem served_enrol (post : Option String) (drawn : String) :
    Served rt s session redis (.enrol post drawn) (enrolView rt s session post drawn).1
      (enrolView rt s session post drawn).2 := by
  unfold enrolView
  split
  · exact .redirect (by decide)
  rename_i profile hcurrent
  split
  · exact .redirect (by decide)
  rename_i hnone
  have hpage (status : Nat) :
      Served rt s session redis (.enrol post drawn) (enrolmentPage s profile drawn status).1
        (enrolmentPage s profile drawn status).2 := by
    unfold enrolmentPage
    split
    · exact .raised
    · rename_i s' hbegin
      obtain rfl | ⟨saved, huser, rfl⟩ := beginEnrolment_eq_some hbegin
      · exact .page _
      · exact .offered hcurrent hnone huser
  split
  · exact hpage _
  split
  · rename_i s' hconfirm
    obtain ⟨hsecret, hverify, rfl⟩ := confirmEnrolment_eq_some hconfirm
    exact .confirmed hcurrent hnone hsecret hverify
  · exact hpage _

theorem served (request : DashboardRequest) :
    Served rt s session redis request (serveDashboard rt s session redis request).1
      (serveDashboard rt s session redis request).2 := by
  cases request with
  | signIn post => exact served_signIn post
  | verify post => exact served_verify post
  | enrol post drawn => exact served_enrol post drawn
  | signOut => exact .signedOut
  | signedIn =>
    change Served rt s session redis .signedIn (signedInView s session).1 (signedInView s session).2
    unfold signedInView
    split
    · exact .redirect (by decide)
    rename_i profile hcurrent
    split
    · exact .redirect (by decide)
    split
    · exact .redirect (by decide)
    rename_i hsecond
    exact .body hcurrent (not_not.mp hsecond)

end

end ComplyLayer
