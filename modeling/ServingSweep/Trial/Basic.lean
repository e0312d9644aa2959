import ServingSweep.Instant
import ServingSweep.Search

/-!
# Trials

A trial is a probe with the record of how it went. The marks move it through its
life: begun, then completed with metrics or failed with a reason. A mark sets what
it concerns and leaves the rest as it was.
-/

namespace ServingSweep

inductive Status where
  | pending
  | running
  | completed
  | failed
  deriving DecidableEq

structure Trial where
  id : Uuid
  probe : Probe
  status : Status := .pending
  result : Option Metrics := none
  created : Instant
  started : Option Instant := none
  finished : Option Instant := none
  reason : Option String := none
  deriving DecidableEq

namespace Trial

def begin (t : Trial) (now : Instant) : Trial := { t with status := .running, started := some now }

def complete (t : Trial) (now : Instant) (metrics : Metrics) : Trial :=
  { t with status := .completed, finished := some now, result := some metrics }

def fail (t : Trial) (now : Instant) (reason : String) : Trial :=
  { t with status := .failed, finished := some now, reason := some reason }

/-- The results of the trial for the search it belongs to. -/
def batch (t : Trial) : Batch := [t.result]

end Trial

end ServingSweep
