import ServingSweep.Plan.Json
import ServingSweep.Run
import ServingSweep.Simulation.Filter
import ServingSweep.Simulation.Server
import ServingSweep.Text.Terminal

/-!
# Simulated runs

A run against the simulated server. Every model of its plan has the base
configuration of the simulation.
-/

namespace ServingSweep.Simulation

def failure : String := "load exceeded server limits"

def attempt (t : Trial) : Except String Metrics :=
  match measure t.probe.variant.config t.probe.load with
  | some metrics => .ok metrics
  | none => .error failure

def resources (p : Plan) : Resources where
  plan := p
  repository := Repository.ofConfigs (Keyed.ofList (p.models.map (fun m => (m.name, base m.name))))
  client := some server

/-- The bench of a plan. Identifiers count up and the clock stands still: no event
shows either. -/
def bench (p : Plan) : Bench where
  resources := resources p
  attempt := attempt
  id n := ⟨BitVec.ofNat 128 n⟩
  now _ := Instant.epoch

def defaultPlan : Plan := { models := [{ name := "resnet50" }] }

def events (p : Plan) : Except Fault (List Event) :=
  (bench p).run.map (fun ended => ended.2.events p.objective)

/-- The lines of the events that are shown. A line break in a message begins a new
line. -/
def lines (f : Filter) (events : List Event) : List String :=
  (events.filter f.shows).flatMap (fun e => (Text.inert e.line).splitOn "\n")

end ServingSweep.Simulation
