import ServingSweep.Sweep.Grid
import ServingSweep.Sweep.Ladder

/-!
# Strategies

What a server sweep gives out, and which strategy a plan calls for.
-/

namespace ServingSweep

/-- Where the configurations of a server sweep come from. -/
inductive Strategy where
  /-- The base configuration and no other. -/
  | baseline
  /-- The configuration that a remote server reports. -/
  | remote
  | grid (rows : Rows Overrides)
  | ladder (rows : Rows Overrides)

namespace Strategy

def name : Strategy → String
  | baseline => "default"
  | remote => "remote"
  | grid _ => "grid"
  | ladder _ => "ladder"

/-- What is walked. The strategies that walk nothing have one configuration, given
out at the start. -/
def rows : Strategy → Rows Overrides
  | baseline | remote => .nil
  | grid rows | ladder rows => rows

def isAdaptive : Strategy → Bool
  | baseline | remote => false
  | grid _ | ladder _ => true

/-- The strategy that a plan calls for. A remote server owns its configuration, so
nothing can be swept there. -/
def ofPlan (p : Plan) (m : Model) (baselineOnly : Bool) : Strategy :=
  if p.launch = .remote then remote
  else if baselineOnly || p.baselineOnly then baseline
  else if m.hasGrid then grid (Grid.ofAxes m.axes)
  else ladder (Ladder.ofPlan p m.cpuOnly)

end Strategy

end ServingSweep
