import ComplyLayer.Theory.Decimal
import ComplyLayer.Theory.Dict
import ComplyLayer.Theory.SortByKey
import Mathlib.Algebra.Order.BigOperators.Group.List
import Mathlib.Data.Prod.Lex
import Mathlib.Data.Rat.Floor
import Mathlib.Data.String.Basic
import Mathlib.Tactic.Linarith

/-!
# A Redis server

Texts, hashes and sorted sets under keys, each of which may have a deadline. A key whose deadline
has come is gone. Commands run one at a time; a transaction runs its commands in order, and an
error of one does not stop the others. Times are in seconds, and scores are rationals.
-/

namespace ComplyLayer.Theory.Redis

inductive Data where
  | text (text : String)
  | hash (fields : Dict String String)
  | sortedSet (scores : Dict String ℚ)

structure Entry where
  data : Data
  deadline : Option ℚ := none

structure Server where
  now : ℚ := 0
  keys : String → Option Entry := fun _ => none

inductive Reply where
  | nil
  | text (text : String)
  | int (n : Int)
  | fields (fields : Dict String String)
  /-- Members with their scores, lowest first. -/
  | members (members : List (String × ℚ))
  | error (message : String)

inductive Command where
  | get (key : String)
  | del (key : String)
  | incr (key : String)
  | ttl (key : String)
  | expire (key : String) (seconds : Int)
  | persist (key : String)
  /-- `SET key value NX EX seconds`. -/
  | setNxEx (key value : String) (seconds : Int)
  | hset (key field value : String)
  | hsetnx (key field value : String)
  | hincrby (key field : String) (increment : Int)
  | hgetall (key : String)
  | zadd (key member : String) (score : ℚ)
  | zremrangebyscore (key : String) (low high : ℚ)
  /-- `ZRANGEBYSCORE key low +inf WITHSCORES`. -/
  | zrangebyscore (key : String) (low : ℚ)

/-- The integers a counter holds. -/
def Fits (n : Int) : Prop := -2 ^ 63 ≤ n ∧ n < 2 ^ 63

instance (n : Int) : Decidable (Fits n) := inferInstanceAs (Decidable (_ ∧ _))

def wrongType : Reply := .error "WRONGTYPE Operation against a key holding the wrong kind of value"

def notAnInteger : Reply := .error "ERR value is not an integer or out of range"

def overflow : Reply := .error "ERR increment or decrement would overflow"

namespace Server

/-- What a key holds now: nothing from its deadline on. (A server of Redis 7 drops a key once its
clock, in milliseconds, is past the deadline.) -/
def find? (r : Server) (key : String) : Option Entry :=
  (r.keys key).filter fun entry => entry.deadline.all fun deadline => r.now < deadline

def deadline? (r : Server) (key : String) : Option ℚ := (r.find? key).bind (·.deadline)

def elapse (r : Server) (seconds : ℚ) : Server := { r with now := r.now + seconds }

def set (r : Server) (key : String) (entry : Option Entry) : Server :=
  { r with keys := fun k => if k = key then entry else r.keys k }

/-- Write a key's data, under the deadline it has. -/
def write (r : Server) (key : String) (data : Data) : Server :=
  r.set key (some ⟨data, r.deadline? key⟩)

/-- The fields of a hash, empty where there is no key; `none` where the key holds another type. -/
def hash? (r : Server) (key : String) : Option (Dict String String) :=
  match (r.find? key).map Entry.data with
  | none => some ∅
  | some (.hash fields) => some fields
  | some _ => none

/-- The members of a sorted set, as `hash?`. -/
def sortedSet? (r : Server) (key : String) : Option (Dict String ℚ) :=
  match (r.find? key).map Entry.data with
  | none => some ∅
  | some (.sortedSet scores) => some scores
  | some _ => none

end Server

/-- The integer a counter's text holds, `0` where it has none yet. -/
def counter? : Option String → Option Int
  | none => some 0
  | some text => (decimal? text).filter fun n => Fits n

/-- What adding to a counter leaves in it. -/
def increased (current : Option String) (increment : Int) : Except Reply Int :=
  match counter? current with
  | none => .error notAnInteger
  | some n =>
    if ¬ Fits increment then .error notAnInteger
    else if Fits (n + increment) then .ok (n + increment)
    else .error overflow

/-- The fields of a hash after `HINCRBY`, which leaves them where it fails. -/
def added (fields : Dict String String) (field : String) (increment : Int) : Dict String String :=
  match increased (fields.get? field) increment with
  | .ok n => fields.set field (toString n)
  | .error _ => fields

/-- The members from a score on, lowest score first and then by name. -/
def rangeFrom (scores : Dict String ℚ) (low : ℚ) : List (String × ℚ) :=
  sortBy (fun entry => toLex (entry.2, entry.1)) (scores.entries.filter fun entry => low ≤ entry.2)

/-- Run one command. -/
def Server.exec (r : Server) : Command → Server × Reply
  | .get key =>
    match r.find? key with
    | none => (r, .nil)
    | some ⟨.text text, _⟩ => (r, .text text)
    | some _ => (r, wrongType)
  | .del key => (r.set key none, .int (if (r.find? key).isSome then 1 else 0))
  | .incr key =>
    let counted (current : Option String) : Server × Reply :=
      match increased current 1 with
      | .ok n => (r.write key (.text (toString n)), .int n)
      | .error reply => (r, reply)
    match r.find? key with
    | none => counted none
    | some ⟨.text text, _⟩ => counted (some text)
    | some _ => (r, wrongType)
  | .ttl key =>
    match r.find? key with
    | none => (r, .int (-2))
    | some ⟨_, none⟩ => (r, .int (-1))
    -- The remaining seconds, to the nearest.
    | some ⟨_, some deadline⟩ => (r, .int (deadline - r.now + 1 / 2).floor)
  | .expire key seconds =>
    match r.find? key with
    | none => (r, .int 0)
    | some entry => (r.set key (some { entry with deadline := some (r.now + seconds) }), .int 1)
  | .persist key =>
    match r.find? key with
    | none | some ⟨_, none⟩ => (r, .int 0)
    | some entry => (r.set key (some { entry with deadline := none }), .int 1)
  | .setNxEx key value seconds =>
    match r.find? key with
    | none => (r.set key (some ⟨.text value, some (r.now + seconds)⟩), .text "OK")
    | some _ => (r, .nil)
  | .hset key field value =>
    match r.hash? key with
    | none => (r, wrongType)
    | some fields =>
      (r.write key (.hash (fields.set field value)), .int (if fields.contains field then 0 else 1))
  | .hsetnx key field value =>
    match r.hash? key with
    | none => (r, wrongType)
    | some fields =>
      if fields.contains field then (r, .int 0)
      else (r.write key (.hash (fields.set field value)), .int 1)
  | .hincrby key field increment =>
    match r.hash? key with
    | none => (r, wrongType)
    | some fields =>
      match increased (fields.get? field) increment with
      | .ok n => (r.write key (.hash (fields.set field (toString n))), .int n)
      | .error reply => (r, reply)
  | .hgetall key =>
    match r.hash? key with
    | none => (r, wrongType)
    | some fields => (r, .fields fields)
  | .zadd key member score =>
    match r.sortedSet? key with
    | none => (r, wrongType)
    | some scores =>
      (r.write key (.sortedSet (scores.set member score)),
        .int (if scores.contains member then 0 else 1))
  | .zremrangebyscore key low high =>
    match r.sortedSet? key with
    | none => (r, wrongType)
    | some scores =>
      let kept := scores.filter fun entry => ¬ (low ≤ entry.2 ∧ entry.2 ≤ high)
      let removed : Int := scores.entries.length - kept.entries.length
      -- A key with no member left is deleted.
      if kept.entries = [] then (r.set key none, .int removed)
      else (r.write key (.sortedSet kept), .int removed)
  | .zrangebyscore key low =>
    match r.sortedSet? key with
    | none => (r, wrongType)
    | some scores => (r, .members (rangeFrom scores low))

/-- `MULTI`, the commands, `EXEC`: every reply, in order. -/
def Server.transaction (r : Server) : List Command → Server × List Reply
  | [] => (r, [])
  | command :: rest =>
    let (r₁, reply) := r.exec command
    let (r₂, replies) := r₁.transaction rest
    (r₂, reply :: replies)

/-- The first error among the replies. -/
def firstError : List Reply → Option String
  | [] => none
  | .error message :: _ => some message
  | _ :: rest => firstError rest

/-! ## Counters -/

theorem counter?_toString (h : Fits n) : counter? (some (toString n)) = some n := by
  rw [counter?, decimal?_toString, Option.filter_some]
  exact if_pos (decide_eq_true h)

theorem increased_eq_ok (hcurrent : counter? current = some n) (hincrement : Fits increment)
    (hsum : Fits (n + increment)) : increased current increment = .ok (n + increment) := by
  simp only [increased, hcurrent, hincrement, hsum, not_true_eq_false, if_false, if_true]

theorem increased_eq_error (h : increased current increment = .error reply) :
    ∃ message, reply = .error message := by
  unfold increased at h
  split at h
  · cases h
    exact ⟨_, rfl⟩
  · split at h
    · cases h
      exact ⟨_, rfl⟩
    · split at h
      · cases h
      · cases h
        exact ⟨_, rfl⟩

theorem get?_added_of_ne {name field : String} (h : name ≠ field) (fields : Dict String String)
    (increment : Int) : (added fields field increment).get? name = fields.get? name := by
  unfold added
  split
  · exact Dict.get?_set_of_ne h _ _
  · rfl

/-- A counter that holds a number takes an increment that fits, up to the largest it holds. -/
theorem counter?_added {fields : Dict String String} (h : counter? (fields.get? field) = some n)
    (increment : Int) : counter? ((added fields field increment).get? field) =
      some (if Fits increment ∧ Fits (n + increment) then n + increment else n) := by
  by_cases hfits : Fits increment ∧ Fits (n + increment)
  · rw [added, increased_eq_ok h hfits.1 hfits.2, if_pos hfits]
    exact (congrArg counter? (Dict.get?_set_self _ _ _)).trans (counter?_toString hfits.2)
  · have herror : ∃ reply, increased (fields.get? field) increment = .error reply := by
      rw [increased, h]
      by_cases hincrement : Fits increment
      · have hsum : ¬ Fits (n + increment) := fun hsum => hfits ⟨hincrement, hsum⟩
        exact ⟨overflow, by simp [hincrement, hsum]⟩
      · exact ⟨notAnInteger, by simp [hincrement]⟩
    obtain ⟨reply, herror⟩ := herror
    rw [added, herror, if_neg hfits]
    exact h

/-- The number a counter comes to: an increment that does not fit is not made. -/
def counted (n : Int) (increments : List Int) : Int :=
  increments.foldl (fun n i => if Fits i ∧ Fits (n + i) then n + i else n) n

theorem counted_concat (n : Int) (increments : List Int) (i : Int) :
    counted n (increments ++ [i]) =
      if Fits i ∧ Fits (counted n increments + i) then counted n increments + i
      else counted n increments := by
  rw [counted, List.foldl_append]
  rfl

theorem fits_counted (h : Fits n) (increments : List Int) : Fits (counted n increments) := by
  induction increments generalizing n with
  | nil => exact h
  | cons i rest ih =>
    rw [counted, List.foldl_cons]
    split
    · exact ih ‹_ ∧ _›.2
    · exact ih h

/-- Increments that are not negative are all made, as long as their sum fits. -/
theorem counted_eq_sum (hn : 0 ≤ n) (hincrements : ∀ i ∈ increments, 0 ≤ i)
    (hsum : n + increments.sum < 2 ^ 63) : counted n increments = n + increments.sum := by
  induction increments generalizing n with
  | nil => exact (add_zero n).symm
  | cons i rest ih =>
    obtain ⟨hi, hrest⟩ := List.forall_mem_cons.mp hincrements
    have hrestsum : 0 ≤ rest.sum := List.sum_nonneg hrest
    rw [List.sum_cons] at hsum
    have hfits : Fits i ∧ Fits (n + i) := by
      constructor <;> constructor <;> omega
    rw [counted, List.foldl_cons, if_pos hfits, List.sum_cons, ← add_assoc]
    exact ih (by omega) hrest (by omega)

/-! ## What a command leaves -/

/-- The key a command is about. -/
def Command.key : Command → String
  | get key | del key | incr key | ttl key | expire key _ | persist key | setNxEx key _ _
  | hset key _ _ | hsetnx key _ _ | hincrby key _ _ | hgetall key | zadd key _ _
  | zremrangebyscore key _ _ | zrangebyscore key _ => key

/-- `r'` is `r` with another entry at one key. -/
structure Server.Writes (r r' : Server) (key : String) (entry : Option Entry) : Prop where
  now : r'.now = r.now
  self : r'.find? key = entry
  others : ∀ k, k ≠ key → r'.find? k = r.find? k

section
variable {r r' : Server} {key : String}

theorem Server.deadline?_of_find? (h : r.find? key = some entry) :
    r.deadline? key = entry.deadline := by
  rw [Server.deadline?, h]
  rfl

theorem Server.live (h : r.find? key = some entry) :
    entry.deadline.all fun deadline => r.now < deadline :=
  (Option.filter_eq_some_iff.mp h).2

theorem Server.hash?_of_find? (h : r.find? key = some ⟨.hash fields, deadline⟩) :
    r.hash? key = some fields := by
  rw [Server.hash?, h]
  rfl

theorem Server.sortedSet?_of_find? (h : r.find? key = some ⟨.sortedSet scores, deadline⟩) :
    r.sortedSet? key = some scores := by
  rw [Server.sortedSet?, h]
  rfl

theorem Server.hash?_congr (h : r'.find? key = r.find? key) : r'.hash? key = r.hash? key := by
  rw [Server.hash?, Server.hash?, h]

theorem Server.sortedSet?_congr (h : r'.find? key = r.find? key) :
    r'.sortedSet? key = r.sortedSet? key := by
  rw [Server.sortedSet?, Server.sortedSet?, h]

theorem Server.writes_set (r : Server) (key : String) (entry : Option Entry) :
    r.Writes (r.set key entry) key
      (entry.filter fun entry => entry.deadline.all fun deadline => r.now < deadline) where
  now := rfl
  self := by
    rw [Server.find?, Server.set]
    simp
  others k hk := by
    rw [Server.find?, Server.set, Server.find?]
    simp [hk]

theorem exec_fst (r : Server) (command : Command) :
    (r.exec command).1 = r ∨ ∃ entry, (r.exec command).1 = r.set command.key entry := by
  cases command
  all_goals
    simp only [Server.exec]
    repeat' split
  all_goals first
    | exact .inl rfl
    | exact .inr ⟨_, rfl⟩

@[simp] theorem now_exec (r : Server) (command : Command) : (r.exec command).1.now = r.now := by
  obtain h | ⟨entry, h⟩ := exec_fst r command
  · rw [h]
  · rw [h]
    rfl

/-- A command leaves every other key as it is. -/
theorem find?_exec_of_ne (h : k ≠ command.key) :
    (r.exec command).1.find? k = r.find? k := by
  obtain heq | ⟨entry, heq⟩ := exec_fst r command
  · rw [heq]
  · rw [heq]
    exact (r.writes_set command.key entry).others k h

/-- A live key is written under its own deadline. -/
theorem Server.writes_write (r : Server) (key : String) (data : Data) :
    r.Writes (r.write key data) key (some ⟨data, r.deadline? key⟩) := by
  have hlive : (r.deadline? key).all fun deadline => r.now < deadline := by
    cases hfind : r.find? key with
    | none => simp [Server.deadline?, hfind]
    | some entry =>
      rw [Server.deadline?_of_find? hfind]
      exact Server.live hfind
  have hset := r.writes_set key (some ⟨data, r.deadline? key⟩)
  rwa [Option.filter_some, if_pos hlive] at hset

/-- As time passes, a key stays until its deadline comes. -/
theorem Server.find?_elapse (r : Server) (key : String) (hseconds : 0 ≤ seconds) :
    (r.elapse seconds).find? key = (r.find? key).filter fun entry =>
      entry.deadline.all fun deadline => r.now + seconds < deadline := by
  rw [Server.find?, Server.find?, Option.filter_filter]
  refine congrArg (fun p => (r.keys key).filter p) (funext fun entry => ?_)
  cases entry.deadline with
  | none => rfl
  | some deadline =>
    have hlater : r.now + seconds < deadline → r.now < deadline := fun h => by linarith
    have hboth : decide (r.now + seconds < deadline) =
        (decide (r.now < deadline) && decide (r.now + seconds < deadline)) := by
      rw [← Bool.decide_and, decide_eq_decide]
      exact ⟨fun h => ⟨hlater h, h⟩, fun h => h.2⟩
    exact hboth

/-- Time passes without touching a key whose deadline has not come. -/
theorem Server.find?_elapse_of_lt (hseconds : 0 ≤ seconds)
    (h : ∀ deadline, r.deadline? key = some deadline → r.now + seconds < deadline) :
    (r.elapse seconds).find? key = r.find? key := by
  rw [Server.find?_elapse r key hseconds]
  cases hfind : r.find? key with
  | none => rfl
  | some entry =>
    refine Option.filter_eq_some_iff.mpr
      ⟨rfl, (Option.all_eq_true _ _).mpr fun deadline hdeadline => ?_⟩
    exact decide_eq_true (h deadline (by rw [Server.deadline?_of_find? hfind, hdeadline]))

/-- The key, where it is there, runs out a time to live after it was last renewed, `idle` ago. -/
def Due (r : Server) (key : String) (ttl idle : ℚ) : Prop :=
  ∀ entry, r.find? key = some entry → entry.deadline = some (r.now - idle + ttl)

theorem due_of_none (h : r.find? key = none) (ttl idle : ℚ) : Due r key ttl idle := by
  intro entry hentry
  rw [h] at hentry
  cases hentry

theorem due_of_find? {ttl idle : ℚ} (h : r.find? key = some entry)
    (hdeadline : entry.deadline = some (r.now - idle + ttl)) : Due r key ttl idle := by
  intro entry' hentry'
  rw [h] at hentry'
  cases hentry'
  exact hdeadline

/-- The key stays for the time to live, and no longer. -/
theorem Due.find?_elapse {ttl idle seconds : ℚ} (h : Due r key ttl idle) (hseconds : 0 ≤ seconds) :
    (r.elapse seconds).find? key = if idle + seconds < ttl then r.find? key else none := by
  rw [Server.find?_elapse r key hseconds]
  cases hfind : r.find? key with
  | none =>
    rw [Option.filter_none]
    split <;> rfl
  | some entry =>
    rw [Option.filter_some, h entry hfind]
    have hlive : (some (r.now - idle + ttl)).all (fun deadline : ℚ =>
        r.now + seconds < deadline) = decide (idle + seconds < ttl) := by
      refine decide_eq_decide.mpr ⟨fun h => ?_, fun h => ?_⟩
      · linarith
      · linarith
    rw [hlive]
    by_cases hin : idle + seconds < ttl
    · rw [if_pos (decide_eq_true hin), if_pos hin]
    · rw [if_neg hin, if_neg fun h => hin (of_decide_eq_true h)]

theorem Due.elapse {ttl idle seconds : ℚ} (h : Due r key ttl idle) (hseconds : 0 ≤ seconds) :
    Due (r.elapse seconds) key ttl (idle + seconds) := by
  intro entry hentry
  rw [h.find?_elapse hseconds] at hentry
  split at hentry
  · rw [h entry hentry]
    refine congrArg some ?_
    simp only [Server.elapse]
    ring
  · cases hentry

theorem exec_zremrangebyscore (h : r.sortedSet? key = some scores) (low high : ℚ) :
    ∃ r' n, r.exec (.zremrangebyscore key low high) = (r', .int n) ∧ r'.now = r.now ∧
      r'.sortedSet? key =
        some (scores.filter fun entry => ¬ (low ≤ entry.2 ∧ entry.2 ≤ high)) ∧
      ∀ k, k ≠ key → r'.find? k = r.find? k := by
  let kept := scores.filter fun entry => ¬ (low ≤ entry.2 ∧ entry.2 ≤ high)
  by_cases hempty : kept.entries = []
  · have hwrites := r.writes_set key none
    have hkept : kept = ∅ := Dict.ext hempty
    have hexec : r.exec (.zremrangebyscore key low high) =
        (r.set key none, .int (scores.entries.length - kept.entries.length)) := by
      simp only [Server.exec, h]
      exact if_pos hempty
    refine ⟨_, _, hexec, hwrites.now, ?_, hwrites.others⟩
    rw [Server.sortedSet?, hwrites.self]
    exact congrArg some hkept.symm
  · have hwrites := r.writes_write key (.sortedSet kept)
    have hexec : r.exec (.zremrangebyscore key low high) =
        (r.write key (.sortedSet kept), .int (scores.entries.length - kept.entries.length)) := by
      simp only [Server.exec, h]
      exact if_neg hempty
    exact ⟨_, _, hexec, hwrites.now, Server.sortedSet?_of_find? hwrites.self, hwrites.others⟩

/-- What is left of a sorted set keeps its deadline. -/
theorem find?_exec_zremrangebyscore (h : r.sortedSet? key = some scores) {low high : ℚ}
    (hfind : (r.exec (.zremrangebyscore key low high)).1.find? key = some entry) :
    ∃ before, r.find? key = some before ∧ entry.deadline = before.deadline := by
  simp only [Server.exec, h] at hfind
  split at hfind
  · rw [(r.writes_set key none).self] at hfind
    cases hfind
  · rename_i hleft
    rw [(r.writes_write key _).self] at hfind
    cases hfind
    cases hbefore : r.find? key with
    | none =>
      rw [Server.sortedSet?, hbefore] at h
      cases h
      exact absurd rfl hleft
    | some before => exact ⟨before, rfl, Server.deadline?_of_find? hbefore⟩

theorem exec_zadd (h : r.sortedSet? key = some scores) (member : String) (score : ℚ) :
    ∃ r' n, r.exec (.zadd key member score) = (r', .int n) ∧
      r.Writes r' key (some ⟨.sortedSet (scores.set member score), r.deadline? key⟩) :=
  ⟨_, _, by simp only [Server.exec, h]; rfl, r.writes_write key _⟩

theorem exec_hset (h : r.hash? key = some fields) (field value : String) :
    ∃ r' n, r.exec (.hset key field value) = (r', .int n) ∧
      r.Writes r' key (some ⟨.hash (fields.set field value), r.deadline? key⟩) :=
  ⟨_, _, by simp only [Server.exec, h]; rfl, r.writes_write key _⟩

theorem exec_hincrby (h : r.hash? key = some fields) (field : String) (increment : Int) :
    ∃ r' reply, r.exec (.hincrby key field increment) = (r', reply) ∧ r'.now = r.now ∧
      r'.hash? key = some (added fields field increment) ∧
      (∀ k, k ≠ key → r'.find? k = r.find? k) ∧
      ((∃ n, increased (fields.get? field) increment = .ok n ∧ reply = .int n) ∨
        (∀ n, increased (fields.get? field) increment ≠ .ok n) ∧
          ∃ message, reply = .error message) := by
  cases hincreased : increased (fields.get? field) increment with
  | ok n =>
    have hwrites := r.writes_write key (.hash (fields.set field (toString n)))
    refine ⟨_, .int n, by simp only [Server.exec, h, hincreased], hwrites.now, ?_,
      hwrites.others, .inl ⟨n, rfl, rfl⟩⟩
    rw [added, hincreased]
    exact Server.hash?_of_find? hwrites.self
  | error reply =>
    obtain ⟨message, rfl⟩ := increased_eq_error hincreased
    refine ⟨r, .error message, by simp only [Server.exec, h, hincreased], rfl, ?_,
      fun _ _ => rfl, .inr ⟨fun n hn => (by cases hn), message, rfl⟩⟩
    rw [added, hincreased]
    exact h

theorem exec_hsetnx (h : r.hash? key = some fields) (field value : String) :
    ∃ r' n, r.exec (.hsetnx key field value) = (r', .int n) ∧ r'.now = r.now ∧
      r'.hash? key = some (if fields.contains field then fields else fields.set field value) ∧
      ∀ k, k ≠ key → r'.find? k = r.find? k := by
  by_cases hfield : fields.contains field
  · rw [if_pos hfield]
    exact ⟨r, 0, by simp only [Server.exec, h, hfield, if_true], rfl, h, fun _ _ => rfl⟩
  · have hwrites := r.writes_write key (.hash (fields.set field value))
    have hexec : r.exec (.hsetnx key field value) =
        (r.write key (.hash (fields.set field value)), .int 1) := by
      simp only [Server.exec, h]
      exact if_neg hfield
    rw [if_neg hfield]
    exact ⟨_, _, hexec, hwrites.now, Server.hash?_of_find? hwrites.self, hwrites.others⟩

theorem exec_expire (h : r.find? key = some entry) (hseconds : 0 < seconds) :
    ∃ r' n, r.exec (.expire key seconds) = (r', .int n) ∧
      r.Writes r' key (some { entry with deadline := some (r.now + seconds) }) := by
  have hset := r.writes_set key (some { entry with deadline := some (r.now + seconds) })
  have hlive : decide (r.now < r.now + (seconds : ℚ)) = true := by simpa using hseconds
  rw [Option.filter_some, Option.all_some, if_pos hlive] at hset
  exact ⟨_, 1, by simp only [Server.exec, h], hset⟩

/-- A counter is increased under its own deadline. -/
theorem exec_incr {entry : Option (String × Option ℚ)}
    (hfind : r.find? key = entry.map fun entry => ⟨.text entry.1, entry.2⟩)
    (hincreased : increased (entry.map Prod.fst) 1 = .ok n) :
    ∃ r', r.exec (.incr key) = (r', .int n) ∧
      r.Writes r' key (some ⟨.text (toString n), r.deadline? key⟩) := by
  refine ⟨_, ?_, r.writes_write key _⟩
  cases entry with
  | none =>
    rw [Option.map_none] at hfind hincreased
    simp only [Server.exec, hfind, hincreased]
  | some entry =>
    rw [Option.map_some] at hfind hincreased
    simp only [Server.exec, hfind, hincreased]

theorem exec_setNxEx (r : Server) (key value : String) (seconds : Int) :
    (r.exec (.setNxEx key value seconds)).1.now = r.now ∧
      ∀ k, k ≠ key → (r.exec (.setNxEx key value seconds)).1.find? k = r.find? k := by
  cases hfind : r.find? key with
  | none =>
    have hset := r.writes_set key (some ⟨.text value, some (r.now + seconds)⟩)
    simp only [Server.exec, hfind]
    exact ⟨hset.now, hset.others⟩
  | some entry =>
    simp only [Server.exec, hfind]
    exact ⟨trivial, fun _ _ => trivial⟩

theorem exec_persist (h : r.find? key = some entry) :
    ∃ r' n, r.exec (.persist key) = (r', .int n) ∧
      r.Writes r' key (some { entry with deadline := none }) := by
  obtain ⟨data, deadline⟩ := entry
  cases deadline with
  | none => exact ⟨r, 0, by simp only [Server.exec, h], rfl, h, fun _ _ => rfl⟩
  | some deadline =>
    have hset := r.writes_set key (some ⟨data, none⟩)
    exact ⟨_, 1, by simp only [Server.exec, h], hset⟩

theorem transaction_cons (hexec : r.exec command = (r', reply)) (rest : List Command) :
    r.transaction (command :: rest) =
      ((r'.transaction rest).1, reply :: (r'.transaction rest).2) := by
  rw [Server.transaction, hexec]

theorem transaction_append (r : Server) (first second : List Command) :
    r.transaction (first ++ second) =
      (((r.transaction first).1.transaction second).1,
        (r.transaction first).2 ++ ((r.transaction first).1.transaction second).2) := by
  induction first generalizing r with
  | nil => rfl
  | cons command rest ih =>
    rw [List.cons_append, transaction_cons rfl, transaction_cons rfl, ih]
    rfl

/-! ## Reads -/

theorem exec_hgetall_fst (r : Server) (key : String) : (r.exec (.hgetall key)).1 = r := by
  simp only [Server.exec]
  split <;> rfl

theorem exec_zrangebyscore_fst (r : Server) (key : String) (low : ℚ) :
    (r.exec (.zrangebyscore key low)).1 = r := by
  simp only [Server.exec]
  split <;> rfl

theorem hash?_of_hgetall (h : (r.exec (.hgetall key)).2 = .fields fields) :
    r.hash? key = some fields := by
  simp only [Server.exec] at h
  split at h
  · cases h
  · rename_i hfields
    cases h
    exact hfields

theorem sortedSet?_of_zrangebyscore (h : (r.exec (.zrangebyscore key low)).2 = .members members) :
    ∃ scores, r.sortedSet? key = some scores ∧ members = rangeFrom scores low := by
  simp only [Server.exec] at h
  split at h
  · cases h
  · rename_i scores hscores
    cases h
    exact ⟨scores, hscores, rfl⟩

end

end ComplyLayer.Theory.Redis
