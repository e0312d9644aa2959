import ServingSweep.Plan.Basic
import ServingSweep.Sweep.Rows

/-!
# Ladders

The walk for a model without a grid: a row of batch sizes for each instance count.
-/

namespace ServingSweep.Ladder

def kind (cpuOnly : Bool) : String := if cpuOnly then "KIND_CPU" else "KIND_GPU"

/-- The overrides of a step: batching on, the batch size, and the instances. -/
def overrides (cpuOnly : Bool) (count batchSize : UInt32) : Overrides :=
  [("dynamic_batching", .emptyMapping),
    ("instance_group",
      .sequence [.mapping [("count", .word count), ("kind", .text (kind cpuOnly))]]),
    (Overrides.batchSizeKey, .word batchSize)]

/-- For each instance count the batch sizes in order. -/
def rows (counts : Series UInt32) (batchSizes : List UInt32) (cpuOnly : Bool) : Rows Overrides :=
  Rows.table (overrides cpuOnly) counts batchSizes

def ofPlan (p : Plan) (cpuOnly : Bool) : Rows Overrides :=
  rows p.instances.all p.batchSize.doublings cpuOnly

end ServingSweep.Ladder
