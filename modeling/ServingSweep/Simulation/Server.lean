import ServingSweep.Control.Client
import ServingSweep.Load
import ServingSweep.Metrics

/-!
# A simulated server

A server whose throughput follows a formula. Capacity grows with instances and
batch size, each less than linearly; demand grows with the requests in flight. Up
to capacity all demand is served, beyond it throughput falls slowly, and more than
512 requests in flight fail.
-/

namespace ServingSweep.Simulation

def base (model : String) : Config :=
  [("instance_group", .sequence [.mapping [("count", .int 1), ("kind", .text "KIND_GPU")]]),
    ("max_batch_size", .int 8),
    ("name", .text model)]

def server : Client where
  load _ _ := .ok ()
  unload _ _ := .ok ()
  config _ model _ := .ok (base model)
  reports
    | .load model => [.simulatedLoad model]
    | .unload model => [.simulatedUnload model]
    | .config _ _ => []

/-- The count of the first instance group, 1 where it is missing. -/
def instances (config : Config) : Int64 :=
  match config.get? "instance_group" with
  | some (.sequence (group :: _)) =>
    ((group.asMapping?.bind (fun g => g.get? "count")).bind Value.asInt?).getD 1
  | _ => 1

/-- The server batch size, 1 at least. -/
def maxBatchSize (config : Config) : Int64 :=
  max (((config.get? "max_batch_size").bind Value.asInt?).getD 1) 1

def ofInt64 (n : Int64) : Float := (Binary64.ofInt n.toInt).toFloat

def ofWord (n : UInt32) : Float := n.toUInt64.toFloat

/-- The throughput of a number of requests in flight. -/
def throughput (instances batchSize inFlight : Float) : Float :=
  let gain := (1.0 + 0.3 * batchSize.log2) / (1.0 + 0.05 * batchSize)
  let capacity := 400.0 * instances.pow 0.7 * gain
  let demand := 60.0 * inFlight
  if demand ≤ capacity then demand else capacity * (1.0 - 0.02 * (demand / capacity).log)

/-- The metrics of a load on a configuration; nothing when the load fails. -/
def measure (config : Config) (load : Load) : Option Metrics :=
  let inFlight := ofWord load.concurrency * ofWord load.batchSize
  if 512.0 < inFlight then none
  else
    let value := throughput (ofInt64 (instances config)) (ofInt64 (maxBatchSize config)) inFlight
    some ((Metrics.empty.set Metrics.throughputTag (.ofFloat value)).set "client_concurrency"
      (.ofFloat (ofWord load.concurrency)))

end ServingSweep.Simulation
