import ServingSweep.Plan.Basic
import ServingSweep.Value.Json

/-!
# Plans and JSON

Readers and writers for plans and their parts. `Plan.ofText` reads a plan and
checks it.
-/

namespace ServingSweep

open Json (Reader Record)

namespace Launch

def name : Launch → String
  | own => "local"
  | remote => "remote"

def names : List (String × Launch) := [("local", own), ("remote", remote)]

def read : Reader Launch := Reader.oneOf names

theorem lookup_name (l : Launch) : names.lookup l.name = some l := by cases l <;> decide

end Launch

namespace Axis

def toJson (a : Axis) : Json :=
  .object [("key", .text a.key), ("values", .array (Value.toJsonItems a.values))]

def read : Reader Axis := fun depth d => do
  let r ← Record.of? ["key", "values"] depth d
  some { key := ← r.required "key" Reader.text
         values := ← r.required "values" (Reader.list Value.read) }

end Axis

namespace Pins

def toJson (p : Pins) : Json :=
  .object [("batch_sizes", .array (p.batchSizes.map Json.word)),
    ("concurrency", .array (p.concurrencies.map Json.word))]

def read : Reader Pins := fun depth d => do
  let r ← Record.of? ["concurrency", "batch_sizes"] depth d
  some { concurrencies := ← r.defaulted "concurrency" (Reader.list Reader.word32) []
         batchSizes := ← r.defaulted "batch_sizes" (Reader.list Reader.word32) [] }

end Pins

namespace Model

def toJson (m : Model) : Json :=
  .object [("cpu_only", .bool m.cpuOnly),
    ("model_config_parameters", .array (m.axes.map Axis.toJson)),
    ("name", .text m.name),
    ("parameters", m.pins.toJson),
    ("perf_analyzer_flags", Json.ofKeyed Json.text m.flags)]

def fields : List String :=
  ["name", "cpu_only", "model_config_parameters", "parameters", "perf_analyzer_flags"]

def read : Reader Model := fun depth d => do
  let r ← Record.of? fields depth d
  some { name := ← r.required "name" Reader.text
         cpuOnly := ← r.defaulted "cpu_only" Reader.bool false
         axes := ← r.defaulted "model_config_parameters" (Reader.list Axis.read) []
         pins := ← r.defaulted "parameters" Pins.read {}
         flags := ← r.defaulted "perf_analyzer_flags" (Reader.keyed Reader.text) [] }

end Model

namespace Plan

def toJson (p : Plan) : Json :=
  .object [("client_max_retries", Json.word p.retries),
    ("early_exit_enable", .bool p.earlyExit),
    ("launch_mode", .text p.launch.name),
    ("max_concurrency", Json.word p.concurrency.most),
    ("max_instance_count", Json.word p.instances.most),
    ("max_model_batch_size", Json.word p.batchSize.most),
    ("min_concurrency", Json.word p.concurrency.least),
    ("min_instance_count", Json.word p.instances.least),
    ("min_model_batch_size", Json.word p.batchSize.least),
    ("model_repository", .text p.repository),
    ("models", .array (p.models.map Model.toJson)),
    ("objective_metric", .text p.objective),
    ("reload_model_disable", .bool p.keepLoaded),
    ("remote_fallback", .bool p.remoteFallback),
    ("run_config_search_disable", .bool p.baselineOnly)]

/-- The fields of a plan, in declared order. -/
def fields : List String :=
  ["objective_metric", "early_exit_enable", "run_config_search_disable", "launch_mode",
    "model_repository", "remote_fallback", "reload_model_disable", "client_max_retries",
    "min_concurrency", "max_concurrency", "min_model_batch_size", "max_model_batch_size",
    "min_instance_count", "max_instance_count", "models"]

def readBounds (r : Record) (least most : String) (default : Bounds) : Option Bounds := do
  some { least := ← r.defaulted least Reader.word32 default.least
         most := ← r.defaulted most Reader.word32 default.most }

/-- A plan from a document, unchecked; the default plan fills what is missing. -/
def read : Reader Plan := fun depth d => do
  let r ← Record.of? fields depth d
  let p : Plan := {}
  some { objective := ← r.defaulted "objective_metric" Reader.text p.objective
         earlyExit := ← r.defaulted "early_exit_enable" Reader.bool p.earlyExit
         baselineOnly := ← r.defaulted "run_config_search_disable" Reader.bool p.baselineOnly
         launch := ← r.defaulted "launch_mode" Launch.read p.launch
         repository := ← r.defaulted "model_repository" Reader.text p.repository
         remoteFallback := ← r.defaulted "remote_fallback" Reader.bool p.remoteFallback
         keepLoaded := ← r.defaulted "reload_model_disable" Reader.bool p.keepLoaded
         retries := ← r.defaulted "client_max_retries" Reader.word32 p.retries
         concurrency := ← readBounds r "min_concurrency" "max_concurrency" p.concurrency
         batchSize := ← readBounds r "min_model_batch_size" "max_model_batch_size" p.batchSize
         instances := ← readBounds r "min_instance_count" "max_instance_count" p.instances
         models := ← r.defaulted "models" (Reader.list Model.read) p.models }

def checked (p : Plan) : Except Fault Plan :=
  match p.fault? with
  | some fault => .error (.plan fault)
  | none => .ok p

def ofText (text : String) : Except Fault Plan :=
  match read.ofText? text with
  | some p => p.checked
  | none => .error .malformed

/-- The plan of a file, by its path and what reading it gave. -/
def ofFile (path : String) (content : Except ReadFault ByteArray) : Except Fault Plan :=
  match content with
  | .error cause => .error (.setup (.unreadable path cause))
  | .ok bytes =>
    match String.fromUTF8? bytes with
    | none => .error (.setup (.unreadable path .notText))
    | some text => ofText text

end Plan

end ServingSweep
