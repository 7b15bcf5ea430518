import ComplyLayer.Dashboard.SignIn
import ComplyLayer.Theory.RedisClients
import ComplyLayer.Velocity.RedisStore

/-!
# The calls on the Redis server

What `velocity/redis_store.py` and `dashboard/throttle.py` send to the server that all workers
share, one transaction after the other.
-/

namespace ComplyLayer

open Theory Redis

/-- Whom a call is for. -/
inductive Party where
  | customer (velocity : RedisVelocity)
  | visitor (throttle : Throttle)

inductive RedisCall where
  | gather (velocity : RedisVelocity) (moment : ℚ)
  | recordAndGather (velocity : RedisVelocity) (t : Recorded) (moment : ℚ)
  | noteFlagged (velocity : RedisVelocity)
  | lockoutSeconds (throttle : Throttle)
  | recordFailure (throttle : Throttle)
  | clear (throttle : Throttle)
  | consumeCode (throttle : Throttle) (code : String)

inductive RedisAnswer where
  | window (fetched : Except String Window)
  | noted (error : Option String)
  /-- `none` where `int` raises. -/
  | seconds (waiting : Option Int)
  | failures (count : Int)
  | cleared
  | consumed (fresh : Bool)

def RedisVelocity.fetchProgram (py : Python) (velocity : RedisVelocity) (moment : ℚ)
    (record : Option Recorded) : Program RedisAnswer :=
  .send (velocity.fetchCommands py moment record) fun replies =>
    .done (.window (fetched py moment replies))

def RedisVelocity.noteFlaggedProgram (velocity : RedisVelocity) : Program RedisAnswer :=
  .send [.hincrby velocity.aggregatesKey "prior_flag_count" 1] fun replies =>
    .done (.noted (firstError replies))

namespace Throttle

/-- `lockout_seconds` from what `GET` returned. -/
def lockoutAfter (throttle : Throttle) : Reply → Program RedisAnswer
  | .error _ => .done (.seconds (some 0))
  | raw =>
    match int? raw with
    | none => .done (.seconds none)
    | some failures =>
      if failures ≤ freeAttempts then .done (.seconds (some 0))
      else .send [.ttl throttle.key] fun replies =>
        match replies with
        | [.int ttl] => .done (.seconds (some (max 0 ttl)))
        | _ => .done (.seconds (some 0))

def lockoutProgram (throttle : Throttle) : Program RedisAnswer :=
  .send [.get throttle.key] fun replies =>
    match replies with
    | [raw] => throttle.lockoutAfter raw
    | _ => .done (.seconds (some 0))

def failureProgram (throttle : Throttle) : Program RedisAnswer :=
  .send [.incr throttle.key] fun replies =>
    match replies with
    | [.int failures] =>
      if failures ≤ freeAttempts then
        .send [.expire throttle.key attemptWindowSeconds] fun _ => .done (.failures failures)
      else
        let excess := (failures - freeAttempts - 1).toNat
        let wait := min (baseLockoutSeconds * 2 ^ excess) maxLockoutSeconds
        .send [.expire throttle.key wait] fun _ => .done (.failures failures)
    | _ => .done (.failures 0)

def clearProgram (throttle : Throttle) : Program RedisAnswer :=
  .send [.del throttle.key] fun _ => .done .cleared

def consumeProgram (throttle : Throttle) (code : String) : Program RedisAnswer :=
  .send [.setNxEx (throttle.replayKey code) "1" codeReplaySeconds] fun replies =>
    match replies with
    | [.nil] => .done (.consumed false)
    | _ => .done (.consumed true)

end Throttle

namespace RedisCall

def party : RedisCall → Party
  | gather velocity _ | recordAndGather velocity _ _ | noteFlagged velocity => .customer velocity
  | lockoutSeconds throttle | recordFailure throttle | clear throttle | consumeCode throttle _ =>
    .visitor throttle

def program (py : Python) : RedisCall → Program RedisAnswer
  | gather velocity moment => velocity.fetchProgram py moment none
  | recordAndGather velocity t moment => velocity.fetchProgram py moment (some t)
  | noteFlagged velocity => velocity.noteFlaggedProgram
  | lockoutSeconds throttle => throttle.lockoutProgram
  | recordFailure throttle => throttle.failureProgram
  | clear throttle => throttle.clearProgram
  | consumeCode throttle code => throttle.consumeProgram code

/-- A call that no other comes between. -/
def serve (py : Python) (server : Server) : RedisCall → Server × RedisAnswer
  | gather velocity moment => (velocity.fetch py server moment none).map id .window
  | recordAndGather velocity t moment =>
    (velocity.recordAndGather py server t moment).map id .window
  | noteFlagged velocity =>
    (server.transaction [.hincrby velocity.aggregatesKey "prior_flag_count" 1]).map id
      fun replies => .noted (firstError replies)
  | lockoutSeconds throttle => (server, .seconds (throttle.lockoutSeconds server))
  | recordFailure throttle => (throttle.recordFailure server).map id .failures
  | clear throttle => (throttle.clear true server, .cleared)
  | consumeCode throttle code => (throttle.consumeCode server code).map id .consumed

end RedisCall

/-! ## The programs are the calls -/

section
variable (py : Python) (server : Server)

theorem fetch_eq (velocity : RedisVelocity) (moment : ℚ) (record : Option Recorded) :
    velocity.fetch py server moment record =
      (server.transaction (velocity.fetchCommands py moment record)).map id
        (fetched py moment) := rfl

theorem transaction_single (command : Command) :
    server.transaction [command] = ((server.exec command).1, [(server.exec command).2]) := rfl

theorem get_fst (key : String) : (server.exec (.get key)).1 = server := by
  simp only [Server.exec]
  split <;> rfl

theorem ttl_fst (key : String) : (server.exec (.ttl key)).1 = server := by
  simp only [Server.exec]
  split <;> rfl

theorem alone_lockoutProgram (throttle : Throttle) :
    throttle.lockoutProgram.alone server = (server, .seconds (throttle.lockoutSeconds server)) := by
  have hget (raw : Reply) (hraw : (server.exec (.get throttle.key)).2 = raw) :
      throttle.lockoutProgram.alone server = (throttle.lockoutAfter raw).alone server := by
    rw [Throttle.lockoutProgram, Program.alone, transaction_single, get_fst, hraw]
  cases hraw : (server.exec (.get throttle.key)).2 with
  | error message =>
    rw [hget _ hraw, Throttle.lockoutSeconds, hraw]
    rfl
  | _ =>
    rw [hget _ hraw, Throttle.lockoutSeconds, hraw]
    simp only [Throttle.lockoutAfter, Option.bind_eq_bind]
    cases Throttle.int? _ with
    | none => rfl
    | some failures =>
      simp only [Option.bind_some]
      split
      · rfl
      · rw [Program.alone, transaction_single, ttl_fst]
        cases (server.exec (.ttl throttle.key)).2 <;> rfl

theorem alone_failureProgram (throttle : Throttle) :
    throttle.failureProgram.alone server = (throttle.recordFailure server).map id .failures := by
  rw [Throttle.failureProgram, Program.alone, transaction_single, Throttle.recordFailure]
  obtain ⟨counted, reply⟩ := server.exec (.incr throttle.key)
  cases reply with
  | int failures =>
    simp only
    split <;> rfl
  | _ => rfl

theorem alone_consumeProgram (throttle : Throttle) (code : String) :
    (throttle.consumeProgram code).alone server =
      (throttle.consumeCode server code).map id .consumed := by
  rw [Throttle.consumeProgram, Program.alone, transaction_single, Throttle.consumeCode]
  obtain ⟨burned, reply⟩ := server.exec (.setNxEx (throttle.replayKey code) "1" codeReplaySeconds)
  cases reply <;> rfl

/-- A program that no other comes between is the call. -/
theorem alone_program (call : RedisCall) :
    (call.program py).alone server = call.serve py server := by
  cases call with
  | gather velocity moment =>
    rw [RedisCall.serve, fetch_eq]
    rfl
  | recordAndGather velocity t moment =>
    rw [RedisCall.serve, RedisVelocity.recordAndGather, fetch_eq]
    rfl
  | noteFlagged velocity => rfl
  | lockoutSeconds throttle => exact alone_lockoutProgram server throttle
  | recordFailure throttle => exact alone_failureProgram server throttle
  | clear throttle => rfl
  | consumeCode throttle code => exact alone_consumeProgram server throttle code

end

end ComplyLayer
