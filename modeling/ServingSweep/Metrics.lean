import ServingSweep.Json.Record

/-!
# Metrics

The metrics of one trial, by tag. A value that is not finite counts as not
measured.
-/

namespace ServingSweep

structure Metrics where
  values : Keyed Binary64
  deriving DecidableEq

namespace Metrics

def empty : Metrics := ⟨[]⟩

def set (m : Metrics) (tag : String) (value : Binary64) : Metrics := ⟨m.values.insert tag value⟩

/-- The tag of a throughput, the objective unless another is named. -/
def throughputTag : String := "perf_throughput"

def measured (m : Metrics) (tag : String) : Option Binary64 :=
  (m.values.get? tag).filter Binary64.isFinite

def toJson (m : Metrics) : Json := .object [("metrics", Json.ofKeyed Json.real m.values)]

def read : Json.Reader Metrics := fun depth d => do
  let r ← Json.Record.of? ["metrics"] depth d
  some ⟨← r.required "metrics" (Json.Reader.keyed Json.Reader.real)⟩

end Metrics

end ServingSweep
