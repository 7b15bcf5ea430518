import ComplyLayer.Api.Store

/-!
# `POST /v1/decisions`

`api/decision.py`, as the steps of one request past validation: find the stored response; if there
is none, gather and evaluate; save; answer. The steps of different requests interleave, and each
is atomic.
-/

namespace ComplyLayer

open Theory

/-- A validated request, with the handler the middleware attached to it. -/
structure DecisionRequest where
  handler : DecisionHandler
  transaction : Transaction
  idempotencyKey : String

/-- The tenant and the key the request carries. -/
def DecisionRequest.idempotency (request : DecisionRequest) : String × String :=
  (request.handler.tenantId, request.idempotencyKey)

/-- How far a request has come. -/
inductive Progress where
  | received
  /-- No stored response was found. -/
  | missed
  /-- Evaluated, with the latency in the body. -/
  | decided (body : Dict String Value)
  /-- The response is there: replayed, or made and saved. -/
  | ready (response : Dict String Value)
  | answered (response : Dict String Value)
  /-- The view raised. -/
  | failed

structure World where
  db : Database
  progress : Nat → Progress

def World.advance (w : World) (r : Nat) (p : Progress) : World where
  db := w.db
  progress i := if i = r then p else w.progress i

/-- One step of the request `r`. What the evaluation draws from outside is in the label: the
fetched window, the policy and lists it reads, the clock, the random id and the latency. -/
inductive DecisionStep where
  | find (r : Nat)
  | evaluate (r : Nat) (velocity : Gathered) (store : StoreView) (now : Instant)
      (decisionId : String) (latencyMs : Int)
  | save (r : Nat)
  | answer (r : Nat)
  /-- The database or the worker fails under the request. -/
  | abort (r : Nat)

variable (py : Python) (hash : HashCustomerRef) (requests : Nat → DecisionRequest)

/-- `decisions`, one step. -/
def decisionStep (w : World) : DecisionStep → Option World
  | .find r =>
    match w.progress r with
    | .received =>
      match DatabaseStore.findResponse w.db (requests r).handler.tenantId
          (requests r).idempotencyKey with
      | some response => some (w.advance r (.ready response))
      | none => some (w.advance r .missed)
    | _ => none
  | .evaluate r velocity store now decisionId latencyMs =>
    match w.progress r with
    | .missed =>
      match (requests r).handler.decide py store (requests r).transaction velocity now decisionId with
      | .ok body => some (w.advance r (.decided (body.set "latency_ms" (.int latencyMs))))
      | .error _ => some (w.advance r .failed)
    | _ => none
  | .save r =>
    match w.progress r with
    | .decided body =>
      match (requests r).handler.record py hash w.db body (requests r).transaction
          (requests r).idempotencyKey with
      | some db => some ({ w with db := db }.advance r (.ready (publicBody body)))
      | none => some (w.advance r .failed)
    | _ => none
  | .answer r =>
    match w.progress r with
    | .ready response => some (w.advance r (.answered response))
    | _ => none
  | .abort r =>
    match w.progress r with
    | .answered _ => none
    | _ => some (w.advance r .failed)

end ComplyLayer
