import ComplyLayer.Api.Decision
import ComplyLayer.Engine.Watcher

/-!
# A worker

What the threads of one worker do with the caches it keeps, one a tenant, while versions are
published: `RuleSetCache.refresh`, which the poll, an announcement and a cold cache all come to,
and a request of `POST /v1/decisions` from `api/decision_middleware.py` on. The steps of different
threads and requests interleave, and each is atomic.
-/

namespace ComplyLayer

open Theory

/-- A thread in `refresh`, under the lock of the cache. -/
inductive Refreshing (θ : Type) where
  | acquired (thread : θ)
  | loaded (thread : θ) (published : Option RuleSetVersion)

/-- A request that is authenticated and valid. -/
structure PostedDecision where
  tenantId : String
  transaction : Transaction
  idempotencyKey : String

/-- How far a request is that found no stored response. -/
inductive Serving where
  | received
  /-- The handler has the rule set of the moment. -/
  | captured (handler : DecisionHandler)
  /-- `named_lists` has answered. -/
  | listed (handler : DecisionHandler) (lists : Dict String Value)
  | decided (handler : DecisionHandler) (body : Dict String Value)
  | recorded
  | failed

structure Worker (θ ρ : Type) where
  published : ManagementDb
  db : Database
  cache : String → Option CompiledVersion := fun _ => none
  lock : String → Option (Refreshing θ) := fun _ => none
  serving : ρ → Serving := fun _ => .received

/-- A label carries what the step draws from outside. -/
inductive WorkerStep (θ ρ : Type) where
  | publish (version : RuleSetVersion)
  | acquire (thread : θ) (tenantId : String)
  | load (thread : θ) (tenantId : String)
  | swap (thread : θ) (tenantId : String) (force : Bool)
  /-- The load raises. -/
  | release (thread : θ) (tenantId : String)
  | capture (r : ρ)
  | readLists (r : ρ)
  | evaluate (r : ρ) (velocity : Gathered) (fallbackPolicy : Dict Severity String) (now : Instant)
      (decisionId : String) (latencyMs : Int)
  | record (r : ρ)

namespace DatabaseStore

/-- `named_lists`. -/
def namedLists (published : ManagementDb) (tenantId : String) (version : Nat) : Dict String Value :=
  ((published.versions.find? (tenantId, version)).map (·.listsSnapshot)).getD ∅

end DatabaseStore

namespace Worker

variable {θ ρ : Type} [DecidableEq θ] [DecidableEq ρ]

def setLock (w : Worker θ ρ) (tenantId : String) (lock : Option (Refreshing θ)) : Worker θ ρ :=
  { w with lock := Function.update w.lock tenantId lock }

def advance (w : Worker θ ρ) (r : ρ) (serving : Serving) : Worker θ ρ :=
  { w with serving := Function.update w.serving r serving }

variable (py : Python) (hash : HashCustomerRef) (salt : String) (requests : ρ → PostedDecision)

/-- One step. A version is published under a number that no version of the tenant has reached. -/
def step (w : Worker θ ρ) : WorkerStep θ ρ → Option (Worker θ ρ)
  | .publish version =>
    match w.published.versions.insert? version with
    | some versions =>
      if w.published.latestVersion version.tenantId < version.version then
        some { w with published := { w.published with versions := versions } }
      else none
    | none => none
  | .acquire thread tenantId =>
    match w.lock tenantId with
    | none => some (w.setLock tenantId (some (.acquired thread)))
    | some _ => none
  | .load thread tenantId =>
    match w.lock tenantId with
    | some (.acquired holder) =>
      if holder = thread then
        some (w.setLock tenantId (some (.loaded thread (w.published.loadPublished tenantId))))
      else none
    | _ => none
  | .swap thread tenantId force =>
    match w.lock tenantId with
    | some (.loaded holder published) =>
      if holder = thread then
        some { w.setLock tenantId none with
          cache := Function.update w.cache tenantId
            (refreshed py (w.cache tenantId) published force) }
      else none
    | _ => none
  | .release thread tenantId =>
    match w.lock tenantId with
    | some (.acquired holder) => if holder = thread then some (w.setLock tenantId none) else none
    | _ => none
  | .capture r =>
    match w.serving r with
    | .received =>
      match w.cache (requests r).tenantId with
      | some loaded => some (w.advance r (.captured ⟨(requests r).tenantId, loaded.ruleset, salt⟩))
      | none => some (w.advance r .failed)
    | _ => none
  | .readLists r =>
    match w.serving r with
    | .captured handler =>
      some (w.advance r (.listed handler
        (DatabaseStore.namedLists w.published handler.tenantId handler.ruleset.version)))
    | _ => none
  | .evaluate r velocity fallbackPolicy now decisionId latencyMs =>
    match w.serving r with
    | .listed handler lists =>
      match tupleLists lists with
      | .ok lists =>
        match handler.decide py ⟨fallbackPolicy, lists⟩ (requests r).transaction velocity now
            decisionId with
        | .ok body => some (w.advance r (.decided handler (body.set "latency_ms" (.int latencyMs))))
        | .error _ => some (w.advance r .failed)
      | .error _ => some (w.advance r .failed)
    | _ => none
  | .record r =>
    match w.serving r with
    | .decided handler body =>
      match handler.record py hash w.db body (requests r).transaction (requests r).idempotencyKey with
      | some db => some { w.advance r .recorded with db := db }
      | none => some (w.advance r .failed)
    | _ => none

/-- What a step can do. -/
inductive Effect (w : Worker θ ρ) : Worker θ ρ → Prop
  | published (version : RuleSetVersion) (versions : Table RuleSetVersion.perTenant)
      (insert : w.published.versions.insert? version = some versions)
      (newer : w.published.latestVersion version.tenantId < version.version) :
      Effect w { w with published := { w.published with versions := versions } }
  | locked (tenantId : String) (lock : Option (Refreshing θ))
      (notLoaded : ∀ thread published, lock ≠ some (.loaded thread published)) :
      Effect w (w.setLock tenantId lock)
  | loaded (tenantId : String) (thread : θ) :
      Effect w
        (w.setLock tenantId (some (.loaded thread (w.published.loadPublished tenantId))))
  | swapped (tenantId : String) (thread : θ) (published : Option RuleSetVersion) (force : Bool)
      (held : w.lock tenantId = some (.loaded thread published)) :
      Effect w
        { w.setLock tenantId none with
          cache := Function.update w.cache tenantId
            (refreshed py (w.cache tenantId) published force) }
  | captured (r : ρ) (loaded : CompiledVersion)
      (cached : w.cache (requests r).tenantId = some loaded) :
      Effect w (w.advance r (.captured ⟨(requests r).tenantId, loaded.ruleset, salt⟩))
  | listed (r : ρ) (handler : DecisionHandler) (captured : w.serving r = .captured handler) :
      Effect w (w.advance r (.listed handler
        (DatabaseStore.namedLists w.published handler.tenantId handler.ruleset.version)))
  | decided (r : ρ) (handler : DecisionHandler) (lists : Dict String Value)
      (store : StoreView) (velocity : Gathered) (now : Instant) (decisionId : String)
      (body : Dict String Value) (latencyMs : Int) (listed : w.serving r = .listed handler lists)
      (tuples : tupleLists lists = .ok store.namedLists)
      (decide : handler.decide py store (requests r).transaction velocity now decisionId =
        .ok body) :
      Effect w (w.advance r (.decided handler (body.set "latency_ms" (.int latencyMs))))
  | recorded (r : ρ) (handler : DecisionHandler) (body : Dict String Value) (db : Database)
      (decided : w.serving r = .decided handler body)
      (record : handler.record py hash w.db body (requests r).transaction
        (requests r).idempotencyKey = some db) :
      Effect w { w.advance r .recorded with db := db }
  | failed (r : ρ) : Effect w (w.advance r .failed)

variable {py hash salt requests}

theorem effect_of_step {w w' : Worker θ ρ} {a : WorkerStep θ ρ}
    (h : step py hash salt requests w a = some w') : Effect py hash salt requests w w' := by
  cases a with
  | publish version =>
    rw [step] at h
    split at h
    · rename_i versions hinsert
      split at h
      · rename_i hnewer
        cases h
        exact .published version versions hinsert hnewer
      · cases h
    · cases h
  | acquire thread tenantId =>
    rw [step] at h
    split at h
    · cases h
      exact .locked tenantId _ fun _ _ hlock => by cases hlock
    · cases h
  | load thread tenantId =>
    rw [step] at h
    split at h
    · split at h
      · cases h
        exact .loaded tenantId thread
      · cases h
    · cases h
  | swap thread tenantId force =>
    rw [step] at h
    split at h
    · rename_i hheld
      split at h
      · cases h
        exact .swapped tenantId _ _ force hheld
      · cases h
    · cases h
  | release thread tenantId =>
    rw [step] at h
    split at h
    · split at h
      · cases h
        exact .locked tenantId none fun _ _ hlock => by cases hlock
      · cases h
    · cases h
  | capture r =>
    rw [step] at h
    split at h
    · split at h
      · rename_i hcached
        cases h
        exact .captured r _ hcached
      · cases h
        exact .failed r
    · cases h
  | readLists r =>
    rw [step] at h
    split at h
    · rename_i hcaptured
      cases h
      exact .listed r _ hcaptured
    · cases h
  | evaluate r velocity fallbackPolicy now decisionId latencyMs =>
    rw [step] at h
    split at h
    · rename_i hlisted
      split at h
      · rename_i lists htuples
        split at h
        · rename_i body hdecide
          cases h
          exact .decided r _ _ ⟨fallbackPolicy, lists⟩ velocity now decisionId body latencyMs
            hlisted htuples hdecide
        · cases h
          exact .failed r
      · cases h
        exact .failed r
    · cases h
  | record r =>
    rw [step] at h
    split at h
    · rename_i hdecided
      split at h
      · rename_i db hrecord
        cases h
        exact .recorded r _ _ db hdecided hrecord
      · cases h
        exact .failed r
    · cases h

end Worker

end ComplyLayer
