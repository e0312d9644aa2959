import ServingSweep.Metrics

/-!
# Batches of results

`best` is the largest measured value of a tag. Of two equal ones the earlier
stays, and nothing measured gives none.
-/

namespace ServingSweep

/-- The results of one step, those of failed trials absent. -/
abbrev Batch := List (Option Metrics)

namespace Batch

def better (best : Option Binary64) (value : Binary64) : Option Binary64 :=
  match best with
  | none => some value
  | some b => if value.le b then some b else some value

def values (batch : Batch) (tag : String) : List Binary64 :=
  batch.filterMap (fun m => m.bind (·.measured tag))

def best (batch : Batch) (tag : String) : Option Binary64 :=
  (batch.values tag).foldl better none

end Batch

end ServingSweep
