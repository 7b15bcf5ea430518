import ComplyLayer.Theory.Redis
import ComplyLayer.Theory.Runs

/-!
# Making the second factor cost something to guess

`dashboard/throttle.py`, and the part the two views of `dashboard/views.py` take in it: a request
is checked, its guess is evaluated, and a failure is counted. Requests run side by side, so between
the steps of one there may be steps of others.
-/

namespace ComplyLayer

open Theory Redis

def freeAttempts : Nat := 5

def baseLockoutSeconds : Int := 30

def maxLockoutSeconds : Int := 15 * 60

def attemptWindowSeconds : Int := 60 * 60

def codeReplaySeconds : Int := 90

/-- The views that throttle. -/
inductive View where
  | signIn | verify
  deriving DecidableEq

def View.scope : View → String
  | signIn => "sign-in"
  | verify => "second-factor"

/-- The throttle of one identity in one view. -/
structure Throttle where
  /-- `hashlib.sha256(text.encode()).hexdigest()[:32]`. -/
  digest : String → String
  view : View
  identity : String

namespace Throttle

/-- `_key`. -/
def key (throttle : Throttle) : String :=
  "cl:throttle:" ++ throttle.view.scope ++ ":" ++ throttle.digest throttle.identity

/-- `int(raw or 0)` of what `GET` returned, `none` where `int` raises. -/
def int? : Reply → Option Int
  | .nil => some 0
  | .text text => if text = "" then some 0 else decimal? text
  | _ => none

/-- `lockout_seconds`, `none` where it raises. -/
def lockoutSeconds (throttle : Throttle) (server : Server) : Option Int :=
  match (server.exec (.get throttle.key)).2 with
  | .error _ => some 0
  | raw => do
    let failures ← int? raw
    if failures ≤ freeAttempts then return 0
    match (server.exec (.ttl throttle.key)).2 with
    | .int ttl => return max 0 ttl
    | _ => return 0

/-- `record_failure`: the new failure count, `0` where Redis refuses to count. -/
def recordFailure (throttle : Throttle) (server : Server) : Server × Int :=
  match server.exec (.incr throttle.key) with
  | (counted, .int failures) =>
    if failures ≤ freeAttempts then
      ((counted.exec (.expire throttle.key attemptWindowSeconds)).1, failures)
    else
      let excess := (failures - freeAttempts - 1).toNat
      let wait := min (baseLockoutSeconds * 2 ^ excess) maxLockoutSeconds
      ((counted.exec (.expire throttle.key wait)).1, failures)
  | (counted, _) => (counted, 0)

/-- The key under which a code is burned. -/
def replayKey (throttle : Throttle) (code : String) : String :=
  "cl:otp:" ++ throttle.digest (throttle.identity ++ ":" ++ code)

/-- `consume_code`. -/
def consumeCode (throttle : Throttle) (server : Server) (code : String) : Server × Bool :=
  match server.exec (.setNxEx (throttle.replayKey code) "1" codeReplaySeconds) with
  | (burned, .nil) => (burned, false)
  | (burned, _) => (burned, true)

/-- What evaluating a guess writes: `verify` burns the code first. -/
def evaluate (throttle : Throttle) (server : Server) (guess : String) : Server :=
  match throttle.view with
  | .signIn => server
  | .verify => (throttle.consumeCode server guess).1

end Throttle

/-! ## The requests for one identity -/

/-- A guess that was evaluated, and failed. -/
structure Guess where
  request : Nat
  moment : ℚ
  /-- What `lockout_seconds` says where the guess is evaluated. -/
  waiting : Option Int
  /-- A lockout of the longest kind was reached before. -/
  capped : Bool
  deriving DecidableEq

/-- A lockout that was reached, with the wait it began with. -/
structure Lockout where
  start : ℚ
  seconds : Int
  deriving DecidableEq

/-- The server, the requests that are between two of their steps, and what has happened so far. -/
structure Attack where
  server : Server
  admitted : List Nat := []
  /-- Evaluated, and still to be counted. -/
  guessed : List Guess := []
  /-- Evaluated and counted, with the count the failure was given. The newest is first. -/
  counted : List (Guess × Int) := []
  lockouts : List Lockout := []

/-- A lockout of the longest kind has been reached. -/
def Attack.capped (w : Attack) : Bool :=
  w.lockouts.any fun lockout => lockout.seconds = maxLockoutSeconds

inductive AttackStep where
  | elapse (seconds : ℚ)
  /-- The request is admitted, or answered with status 429. -/
  | check (request : Nat)
  | guess (request : Nat) (guess : String)
  | count (request : Nat)

/-- The lockout a server is in the first moment of. -/
def Throttle.reached (throttle : Throttle) (server : Server) : List Lockout :=
  match throttle.lockoutSeconds server with
  | some seconds => if 0 < seconds then [⟨server.now, seconds⟩] else []
  | none => []

/-- One step. Every guess fails. -/
def attackStep (throttle : Throttle) (w : Attack) : AttackStep → Option Attack
  | .elapse seconds => if 0 ≤ seconds then some { w with server := w.server.elapse seconds } else none
  | .check request =>
    if throttle.lockoutSeconds w.server = some 0 then
      some { w with admitted := request :: w.admitted }
    else some w
  | .guess request guess =>
    if request ∈ w.admitted then
      let evaluated : Guess :=
        { request := request
          moment := w.server.now
          waiting := throttle.lockoutSeconds w.server
          capped := w.capped }
      some
        { w with
          server := throttle.evaluate w.server guess
          admitted := w.admitted.erase request
          guessed := evaluated :: w.guessed }
    else none
  | .count request =>
    match w.guessed.find? fun guess => guess.request = request with
    | none => none
    | some guess =>
      let (server, failures) := throttle.recordFailure w.server
      some
        { w with
          server := server
          guessed := w.guessed.erase guess
          counted := (guess, failures) :: w.counted
          lockouts := w.lockouts ++ throttle.reached server }

namespace Attack

/-- The guesses that were evaluated. -/
def guesses (w : Attack) : List Guess := w.guessed ++ w.counted.map Prod.fst

/-- The requests between their check and their count. -/
def inFlight (w : Attack) : Nat := w.admitted.length + w.guessed.length

end Attack

/-- The failures the key counts now. -/
def Throttle.failures (throttle : Throttle) (server : Server) : Int :=
  match server.find? throttle.key with
  | some ⟨.text text, _⟩ => (decimal? text).getD 0
  | _ => 0

/-! ## What the key says -/

/-- The failures counted, and when they are forgotten. -/
structure Failures where
  count : Nat
  deadline : ℚ
  deriving DecidableEq

/-- How long a key of `n` failures lives: as long as its lockout, if there is one. -/
def lifetime (n : Nat) : Int :=
  if n ≤ freeAttempts then attemptWindowSeconds
  else min (baseLockoutSeconds * 2 ^ (n - freeAttempts - 1)) maxLockoutSeconds

namespace Failures

def entry (f : Failures) : Entry := ⟨.text (toString (f.count : Int)), some f.deadline⟩

/-- No key is no failure. -/
def countOf (s : Option Failures) : Nat := (s.map count).getD 0

/-- How long there is to wait. -/
def waiting (now : ℚ) : Option Failures → Int
  | none => 0
  | some f => if f.count ≤ freeAttempts then 0 else max 0 (f.deadline - now + 1 / 2).floor

end Failures

/-- The server holds the failures `s` under the key. -/
def Reads (throttle : Throttle) (server : Server) (s : Option Failures) : Prop :=
  server.find? throttle.key = s.map Failures.entry

section
variable {throttle : Throttle} {server : Server} {s : Option Failures}

theorem lifetime_of_le (h : n ≤ freeAttempts) : lifetime n = attemptWindowSeconds := if_pos h

theorem lifetime_of_lt (h : freeAttempts < n) :
    lifetime n = min (baseLockoutSeconds * 2 ^ (n - freeAttempts - 1)) maxLockoutSeconds :=
  if_neg (Nat.not_le.mpr h)

theorem lifetime_pos (n : Nat) : 0 < lifetime n := by
  unfold lifetime
  split
  · decide
  · have hbase : (0 : Int) < baseLockoutSeconds := by decide
    have hpower : (0 : Int) < 2 ^ (n - freeAttempts - 1) := Int.pow_pos (by decide)
    exact lt_min (Int.mul_pos hbase hpower) (by decide)

theorem int?_toString (n : Int) : Throttle.int? (.text (toString n)) = some n := by
  have hne : toString n ≠ "" := by
    intro h
    have hdecimal := decimal?_toString n
    rw [h] at hdecimal
    cases hdecimal
  rw [Throttle.int?, if_neg hne, decimal?_toString]

theorem Reads.lockoutSeconds (h : Reads throttle server s) :
    throttle.lockoutSeconds server = some (Failures.waiting server.now s) := by
  unfold Throttle.lockoutSeconds
  cases s with
  | none =>
    have hfind : server.find? throttle.key = none := h
    simp only [Server.exec, hfind]
    rfl
  | some f =>
    have hfind : server.find? throttle.key =
        some ⟨.text (toString (f.count : Int)), some f.deadline⟩ := h
    simp only [Server.exec, hfind, int?_toString, Option.bind_eq_bind, Option.bind_some,
      Failures.waiting, Nat.cast_le]
    split <;> rfl

theorem Reads.failures (h : Reads throttle server s) :
    throttle.failures server = Failures.countOf s := by
  rw [Throttle.failures, h]
  cases s with
  | none => rfl
  | some f =>
    simp only [Option.map_some, Failures.entry, decimal?_toString]
    rfl

theorem Reads.elapse (h : Reads throttle server s) (hseconds : 0 ≤ seconds) :
    Reads throttle (server.elapse seconds) (s.filter fun f => server.now + seconds < f.deadline) := by
  rw [Reads, Server.find?_elapse server throttle.key hseconds, h]
  cases s with
  | none => rfl
  | some f =>
    rw [Option.map_some, Option.filter_some, Option.filter_some, Failures.entry, Option.all_some]
    split <;> rfl

/-- **What counting does**: one failure more, forgotten when its lifetime is over. -/
theorem Reads.recordFailure (h : Reads throttle server s)
    (hroom : (Failures.countOf s : Int) + 1 < 2 ^ 63) :
    ∃ server', throttle.recordFailure server = (server', ((Failures.countOf s + 1 : Nat) : Int)) ∧
      server'.now = server.now ∧
      Reads throttle server' (some ⟨Failures.countOf s + 1,
        server.now + lifetime (Failures.countOf s + 1)⟩) := by
  have hfind : server.find? throttle.key =
      (s.map fun f => (toString (f.count : Int), some f.deadline)).map
        fun entry => ⟨.text entry.1, entry.2⟩ := by
    rw [Option.map_map]
    exact h
  have hcounter : counter? ((s.map fun f => (toString (f.count : Int), some f.deadline)).map
      Prod.fst) = some (Failures.countOf s : Int) := by
    cases s with
    | none => rfl
    | some f =>
      have hfits : Fits (f.count : Int) := by
        have : (f.count : Int) + 1 < 2 ^ 63 := hroom
        constructor <;> omega
      exact counter?_toString hfits
  have hincreased := increased_eq_ok hcounter (by decide : Fits 1) (by constructor <;> omega)
  obtain ⟨counted, hincr, hcounted⟩ := exec_incr hfind hincreased
  obtain ⟨server', n, hexpire, hwritten⟩ :=
    exec_expire hcounted.self (lifetime_pos (Failures.countOf s + 1))
  have hrecord : throttle.recordFailure server =
      ((counted.exec (.expire throttle.key (lifetime (Failures.countOf s + 1)))).1,
        (Failures.countOf s : Int) + 1) := by
    have hover : ((Failures.countOf s : Int) + 1 - freeAttempts - 1).toNat =
        Failures.countOf s + 1 - freeAttempts - 1 := by
      omega
    simp only [Throttle.recordFailure, hincr, hover, lifetime]
    split
    · rw [if_pos (by omega)]
    · rw [if_neg (by omega)]
  refine ⟨server', ?_, hwritten.now.trans hcounted.now, ?_⟩
  · rw [hrecord, hexpire, Nat.cast_succ]
  · rw [Reads, hwritten.self, hcounted.now]
    rfl

theorem Throttle.key_ne_replayKey (throttle other : Throttle) (code : String) :
    throttle.key ≠ other.replayKey code := fun h => by
  have hlist := congrArg String.toList h
  simp [key, replayKey] at hlist

theorem Throttle.consumeCode_server (throttle : Throttle) (server : Server) (code : String) :
    (throttle.consumeCode server code).1 =
      (server.exec (.setNxEx (throttle.replayKey code) "1" codeReplaySeconds)).1 := by
  unfold consumeCode
  split
  · rename_i hexec
    rw [hexec]
  · rename_i hexec
    rw [hexec]

theorem Throttle.now_evaluate (throttle : Throttle) (server : Server) (guess : String) :
    (throttle.evaluate server guess).now = server.now := by
  unfold evaluate
  cases throttle.view with
  | signIn => rfl
  | verify =>
    rw [consumeCode_server]
    exact (exec_setNxEx server _ _ _).1

/-- Evaluating a guess counts nothing. -/
theorem Reads.evaluate (h : Reads throttle server s) (guess : String) :
    Reads throttle (throttle.evaluate server guess) s := by
  rw [Reads, ← h]
  unfold Throttle.evaluate
  cases throttle.view with
  | signIn => rfl
  | verify =>
    rw [Throttle.consumeCode_server]
    exact (exec_setNxEx server _ _ _).2 _ (throttle.key_ne_replayKey throttle guess)

end

end ComplyLayer
