import ServingSweep.Bounds
import ServingSweep.Fault
import ServingSweep.Metrics
import ServingSweep.Overrides

/-!
# Search plans

A plan names the models to profile and how to search each of them. `Plan.fault?`
finds the first reason why a plan cannot be carried out; `passes` and the two
early exits are what follows from a plan for each model.
-/

namespace ServingSweep

/-- Who manages the server. -/
inductive Launch where
  /-- The search launches it and writes its configurations. -/
  | own
  /-- It runs already and owns its configuration. -/
  | remote
  deriving DecidableEq

structure Axis where
  key : String
  values : List Value
  deriving DecidableEq

/-- Client parameters given for a model; an empty list leaves one to the search. -/
structure Pins where
  concurrencies : List UInt32 := []
  batchSizes : List UInt32 := []
  deriving DecidableEq

structure Model where
  name : String
  cpuOnly : Bool := false
  /-- The explicit grid, in declared order. -/
  axes : List Axis := []
  pins : Pins := {}
  /-- Further options of the profiling client. -/
  flags : Keyed String := []
  deriving DecidableEq

namespace Model

/-- Whether the grid has a value at all; axes without values say nothing. -/
def hasGrid (m : Model) : Bool := m.axes.any (fun a => !a.values.isEmpty)

def fault? (m : Model) : Option PlanFault :=
  if m.name.isEmpty then some .unnamedModel
  else if m.pins.concurrencies.contains 0 || m.pins.batchSizes.contains 0 then
    some (.zeroPinned m.name)
  else (m.axes.find? (·.values.isEmpty)).map (fun a => .emptyAxis m.name a.key)

end Model

structure Plan where
  /-- The tag of the metric to maximise. -/
  objective : String := Metrics.throughputTag
  /-- Leave a dimension early even where it was given explicitly. -/
  earlyExit : Bool := false
  /-- Profile base configurations only. -/
  baselineOnly : Bool := false
  launch : Launch := .own
  /-- Where base configurations are kept. -/
  repository : String := "models"
  /-- Ask the server for a base configuration that the repository lacks. -/
  remoteFallback : Bool := true
  /-- Take a model on a remote server as loaded already. -/
  keepLoaded : Bool := false
  retries : UInt32 := 50
  concurrency : Bounds := ⟨1, 1024⟩
  batchSize : Bounds := ⟨1, 128⟩
  instances : Bounds := ⟨1, 5⟩
  models : List Model := []
  deriving DecidableEq

/-- Bounds that leave nothing to sweep, or start at zero. -/
def Bounds.fault? (name : String) (b : Bounds) : Option PlanFault :=
  if b.least = 0 then some (.belowOne name)
  else if b.most < b.least then some (.inverted name b.least b.most)
  else none

namespace Plan

/-- The first fault of the bounds, then of the objective, then of the models. -/
def fault? (p : Plan) : Option PlanFault :=
  (p.concurrency.fault? "concurrency").or <|
  (p.batchSize.fault? "model batch size").or <|
  (p.instances.fault? "instance count").or <|
  (if p.objective.isEmpty then some .noObjective else none).or <|
  p.models.findSome? Model.fault?

/-- The passes over each model: whether to profile the base configuration only.
Where there is nothing to sweep the first pass is the last. -/
def passes (p : Plan) : List Bool :=
  if p.launch = .remote || p.baselineOnly then [true] else [true, false]

def serverEarlyExit (p : Plan) (m : Model) : Bool := p.earlyExit || !m.hasGrid

def loadEarlyExit (p : Plan) (m : Model) : Bool := p.earlyExit || m.pins.concurrencies.isEmpty

end Plan

end ServingSweep
