import ServingSweep.Plan.Basic
import ServingSweep.Sweep.Course

/-!
# Load sweeps

A load sweep gives out the loads for one variant: a row of concurrencies for each
batch size.
-/

namespace ServingSweep

abbrev LoadSweep := Course Load

namespace LoadSweep

/-- The loads of a variant, a row for each batch size. -/
def rows (variant : String) (batchSizes concurrencies : List UInt32) (flags : Keyed String) :
    Rows Load :=
  Rows.table (fun size concurrency =>
    { variant := variant, batchSize := size, concurrency := concurrency, flags := flags })
    (.ofList batchSizes) concurrencies

def of (variant : String) (batchSizes concurrencies : List UInt32) (earlyExit : Bool)
    (metric : String) (flags : Keyed String) : LoadSweep where
  owner := variant
  rows := rows variant batchSizes concurrencies flags
  earlyExit := earlyExit
  progress := { dimension := .concurrency, metric := metric }

/-- The batch sizes to use for a model; one alone unless some are given. -/
def batchSizes (m : Model) : List UInt32 :=
  if m.pins.batchSizes.isEmpty then [1] else m.pins.batchSizes

/-- The concurrencies to use for a model; doublings unless some are given. -/
def concurrencies (p : Plan) (m : Model) : List UInt32 :=
  if m.pins.concurrencies.isEmpty then p.concurrency.doublings else m.pins.concurrencies

def ofPlan (p : Plan) (m : Model) (variant : String) : LoadSweep :=
  of variant (batchSizes m) (concurrencies p m) (p.loadEarlyExit m) p.objective m.flags

end LoadSweep

end ServingSweep
