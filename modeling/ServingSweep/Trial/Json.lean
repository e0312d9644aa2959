import ServingSweep.Trial.Basic

/-!
# Trials and JSON
-/

namespace ServingSweep

open Json (Reader Record)

namespace Status

def name : Status → String
  | pending => "Pending"
  | running => "Running"
  | completed => "Completed"
  | failed => "Failed"

def names : List (String × Status) :=
  [("Pending", pending), ("Running", running), ("Completed", completed), ("Failed", failed)]

def read : Reader Status := Reader.oneOf names

theorem lookup_name (s : Status) : names.lookup s.name = some s := by cases s <;> decide

end Status

def Uuid.read : Reader Uuid := fun depth d => (Reader.text depth d).bind Uuid.ofString?

def Instant.read : Reader Instant := fun depth d => (Reader.text depth d).bind Instant.ofString?

namespace Trial

def toJson (t : Trial) : Json :=
  .object [("created_at", .text t.created.toString),
    ("error", Json.ofOption Json.text t.reason),
    ("finished_at", Json.ofOption (fun i => Json.text (Instant.toString i)) t.finished),
    ("id", .text t.id.toString),
    ("load_config", t.probe.load.toJson),
    ("model_config", t.probe.variant.toJson),
    ("model_name", .text t.probe.model),
    ("result", Json.ofOption Metrics.toJson t.result),
    ("run_id", .text t.probe.run.toString),
    ("started_at", Json.ofOption (fun i => Json.text (Instant.toString i)) t.started),
    ("status", .text t.status.name),
    ("trial_number", Json.count t.probe.number)]

def fields : List String :=
  ["id", "run_id", "trial_number", "model_name", "model_config", "load_config", "status", "result",
    "created_at", "started_at", "finished_at", "error"]

def readProbe (r : Record) : Option Probe := do
  some { run := ← r.required "run_id" Uuid.read
         number := ← r.required "trial_number" Reader.word64
         model := ← r.required "model_name" Reader.text
         variant := ← r.required "model_config" Variant.read
         load := ← r.required "load_config" Load.read }

def read : Reader Trial := fun depth d => do
  let r ← Record.of? fields depth d
  some { id := ← r.required "id" Uuid.read
         probe := ← readProbe r
         status := ← r.required "status" Status.read
         result := ← r.optional "result" Metrics.read
         created := ← r.required "created_at" Instant.read
         started := ← r.optional "started_at" Instant.read
         finished := ← r.optional "finished_at" Instant.read
         reason := ← r.optional "error" Reader.text }

end Trial

end ServingSweep
