import ServingSweep.Batch
import ServingSweep.Event

/-!
# Progress along a row

The best value of each step of a row, and what a further step is worth. A step
improves when its best value is above that of every earlier step. The notice why
a row ends early is given once for all rows.
-/

namespace ServingSweep

inductive Verdict where
  | improved
  | plateaued
  /-- No value was measured. -/
  | unmeasured
  deriving DecidableEq

def Verdict.isImproving (v : Verdict) : Bool := decide (v = .improved)

structure Progress where
  dimension : Dimension
  metric : String
  /-- The best values of the row, in order. -/
  history : List Binary64 := []
  /-- The notice was given. -/
  noticed : Bool := false

namespace Progress

def judge (history : List Binary64) (value : Binary64) : Verdict :=
  if history.all (·.lt value) then .improved else .plateaued

/-- Notes the results of a step. One without a value leaves the row as it was. -/
def record (p : Progress) (batch : Batch) : Verdict × Progress :=
  match batch.best p.metric with
  | none => (.unmeasured, p)
  | some value => (judge p.history value, { p with history := p.history ++ [value] })

def notice? (p : Progress) (v : Verdict) : Option Event :=
  if p.noticed then none
  else
    match v with
    | .improved => none
    | .plateaued => some (.plateaued p.dimension p.metric)
    | .unmeasured => some (.unmeasured p.dimension p.metric)

def stopped (p : Progress) (v : Verdict) : Progress :=
  { p with noticed := p.noticed || (p.notice? v).isSome }

def reset (p : Progress) : Progress := { p with history := [] }

end Progress

end ServingSweep
