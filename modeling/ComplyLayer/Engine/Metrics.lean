import ComplyLayer.Dsl.Python
import ComplyLayer.Theory.Redis

/-!
# Gauges of every worker

`publish_gauge` and `shared_gauges` of `engine/metrics.py`. One hash holds the gauges of every
worker, a field for each series.
-/

namespace ComplyLayer

open Theory Redis

def sharedGaugeTtlSeconds : Int := 120

def sharedGaugeKey : String := "cl:metrics:gauge"

/-- A process that publishes. Its pid is its own on one host only. -/
structure GaugeWorker where
  host : String
  pid : Nat
  deriving DecidableEq

/-- The name of a series, and its labels in order. -/
structure MetricKey where
  name : String
  labels : List (String × String)
  deriving DecidableEq

/-- `_key`: the pid is the worker's label unless the labels name one. -/
def metricKey (worker : GaugeWorker) (name : String) (labels : Dict String String) : MetricKey :=
  let labels :=
    if labels.contains "worker" then labels else labels.set "worker" (toString worker.pid)
  ⟨name, sortBy toLex labels.entries⟩

/-- `_render_key`. -/
def renderKey (key : MetricKey) : String :=
  if key.labels = [] then key.name
  else
    let rendered := key.labels.map fun (label, value) => label ++ "=\"" ++ value ++ "\""
    key.name ++ "\x7b" ++ ",".intercalate rendered ++ "\x7d"

/-- `publish_gauge`. Whatever the pipeline raises is dropped. -/
def publishGauge (py : Python) (server : Server) (worker : GaugeWorker) (name : String)
    (value : Value) (labels : Dict String String) : Server :=
  let field := renderKey (metricKey worker name labels)
  (server.transaction [.hset sharedGaugeKey field (py.repr value),
    .expire sharedGaugeKey sharedGaugeTtlSeconds]).1

/-- `shared_gauges`. A field that is no number is left out. -/
def sharedGauges (py : Python) (server : Server) : Dict String ℚ :=
  match (server.exec (.hgetall sharedGaugeKey)).2 with
  | .fields raw => raw.filterMap py.float
  | _ => ∅

/-- What one publication does to the hash. -/
theorem publishGauge_writes (py : Python) {server : Server}
    (h : server.hash? sharedGaugeKey = some gauges) (worker : GaugeWorker) (name : String)
    (value : Value) (labels : Dict String String) :
    ∃ server', publishGauge py server worker name value labels = server' ∧
      server.Writes server' sharedGaugeKey
        (some ⟨.hash (gauges.set (renderKey (metricKey worker name labels)) (py.repr value)),
          some (server.now + sharedGaugeTtlSeconds)⟩) := by
  obtain ⟨written, n, hset, hwritten⟩ :=
    exec_hset h (renderKey (metricKey worker name labels)) (py.repr value)
  obtain ⟨expiring, m, hexpire, hexpiring⟩ :=
    exec_expire hwritten.self (show 0 < sharedGaugeTtlSeconds by decide)
  refine ⟨expiring, ?_, hexpiring.now.trans hwritten.now, ?_, fun k hk => ?_⟩
  · simp only [publishGauge, transaction_cons hset, transaction_cons hexpire]
    rfl
  · rw [hexpiring.self, hwritten.now]
  · rw [hexpiring.others k hk, hwritten.others k hk]

theorem sharedGauges_eq (py : Python) {server : Server}
    (h : server.hash? sharedGaugeKey = some gauges) :
    sharedGauges py server = gauges.filterMap py.float := by
  simp only [sharedGauges, Server.exec, h]

end ComplyLayer
