import ServingSweep.Fault
import ServingSweep.Load
import ServingSweep.Value.Json
import ServingSweep.Decimal.Layout

/-!
# Events of a search

What a search reports while it runs, by what happened. `level` grades an event,
`target` says which part of the program it comes from, and `message` words it.
-/

namespace ServingSweep

inductive Level where
  | error
  | warn
  | info
  | debug
  | trace
  deriving DecidableEq

namespace Level

def rank : Level → Nat
  | error => 1
  | warn => 2
  | info => 3
  | debug => 4
  | trace => 5

def name : Level → String
  | error => "ERROR"
  | warn => "WARN"
  | info => "INFO"
  | debug => "DEBUG"
  | trace => "TRACE"

end Level

inductive Dimension where
  | concurrency
  | batchSize
  deriving DecidableEq

def Dimension.name : Dimension → String
  | concurrency => "concurrency"
  | batchSize => "max_batch_size"

inductive Event where
  /-- An item was pulled while the results of the one before were due. -/
  | unreported (owner : String)
  /-- Results came while none were due. -/
  | stray (owner : String)
  /-- Results came a second time. -/
  | repeated (owner : String)
  /-- A row ends because its last step was no improvement. -/
  | plateaued (dimension : Dimension) (metric : String)
  /-- A row ends because its last step was not measured. -/
  | unmeasured (dimension : Dimension) (metric : String)
  | building (variant : String)
  | enabling (key : String)
  | setting (key : String) (value : Value)
  | strategyChosen (model strategy : String) (earlyExit : Bool)
  | usingReported (model : String)
  | askingServer (model repository : String)
  | configReported (model : String)
  | unloadFailed (model : String) (fault : ControlFault)
  | profiling (variant : String)
  | sweepEnded (variant : String) (results : Nat)
  | simulatedLoad (model : String)
  | simulatedUnload (model : String)
  | trialFailed (number : Nat) (reason : String)
  | trialEnded (variant : String) (load : Load) (value : Option Binary64)
  | completed (trials failed : Nat)
  | best (variant : String) (load : Load) (value : Binary64) (metric : String)
  | noBest (metric : String)
  deriving DecidableEq

namespace Event

def level : Event → Level
  | unreported _ | stray _ | repeated _ | unmeasured _ _ | unloadFailed _ _ | trialFailed _ _
  | noBest _ => .warn
  | strategyChosen _ _ _ | configReported _ | sweepEnded _ _ => .debug
  | _ => .info

def target : Event → String
  | unreported _ | stray _ | repeated _ => "st_search::generator"
  | plateaued _ _ | unmeasured _ _ => "st_search::plateau"
  | building _ | enabling _ | setting _ _ | strategyChosen _ _ _ | usingReported _ =>
    "st_search::server"
  | askingServer _ _ | configReported _ | unloadFailed _ _ => "st_search::context"
  | profiling _ | sweepEnded _ _ => "st_search::orchestrator"
  | simulatedLoad _ | simulatedUnload _ | trialFailed _ _ | trialEnded _ _ _ | completed _ _
  | best _ _ _ _ | noBest _ => "st_sweep_sim"

def optional : Option Binary64 → String
  | none => "None"
  | some x => "Some(" ++ Layout.listing.write x ++ ")"

def message : Event → String
  | unreported owner =>
    s!"{owner}: next config pulled before results for the previous one were reported"
  | stray owner => s!"{owner}: results reported with no config outstanding"
  | repeated owner => s!"{owner}: results reported twice for the same config"
  | plateaued dimension metric =>
    s!"No longer increasing {dimension.name} because {metric} has plateaued"
  | unmeasured dimension metric =>
    s!"No longer increasing {dimension.name} because no valid {metric} was measured"
  | building variant => s!"Creating model config: {variant}"
  | enabling key => s!"  Enabling {key}"
  | setting key value => s!"  Setting {key} to {value.display}"
  | strategyChosen model strategy earlyExit =>
    s!"Model {model} uses {strategy} strategy (early exit: {earlyExit})"
  | usingReported model => s!"Using server-reported config for {model}"
  | askingServer model repository =>
    s!"No config for {model} in {repository}; asking the server for a default"
  | configReported model => s!"Server reported config for {model}"
  | unloadFailed model fault =>
    s!"Could not unload {model} after failed fetch: {fault.message}"
  | profiling variant => s!"Profiling load configs for {variant}"
  | sweepEnded variant results =>
    s!"Load sweep for {variant} finished with {results} measurements"
  | simulatedLoad model => s!"Loading {model} on simulated server"
  | simulatedUnload model => s!"Unloading {model} from simulated server"
  | trialFailed number reason => s!"Trial {number} failed: {reason}"
  | trialEnded variant load value => s!"{variant} [{load.display}] -> {optional value}"
  | completed trials failed => s!"Completed {trials} trials ({failed} failed)"
  | best variant load value metric =>
    s!"Best: {variant} with {load.display} at {Decimal.fixed 1 value} {metric}"
  | noBest metric => s!"No trial produced a usable {metric}"

def line (e : Event) : String := e.level.name ++ " " ++ e.message

end Event

end ServingSweep
