import ServingSweep.Trial.Json

/-!
# Reports

A report counts the trials that ended and keeps the best of them: the first of
those with the largest objective. A trial that did not end is passed over.
-/

namespace ServingSweep

structure Report where
  /-- The tag of the metric to maximise. -/
  objective : String
  completed : Nat := 0
  failed : Nat := 0
  best : Option Trial := none
  deriving DecidableEq

namespace Report

/-- The objective of a trial, if it was measured. -/
def valueOf (r : Report) (t : Trial) : Option Binary64 :=
  t.result.bind (·.measured r.objective)

def bestValue (r : Report) : Option Binary64 := r.best.bind r.valueOf

def improvedBy (r : Report) (t : Trial) : Bool :=
  match r.valueOf t, r.bestValue with
  | none, _ => false
  | some _, none => true
  | some value, some best => best.lt value

def count (r : Report) (t : Trial) : Report :=
  match t.status with
  | .completed => { r with completed := r.completed + 1 }
  | .failed => { r with failed := r.failed + 1 }
  | .pending | .running => r

def record (r : Report) (t : Trial) : Report :=
  match t.status with
  | .pending | .running => r
  | .completed | .failed =>
    if r.improvedBy t then { r.count t with best := some t } else r.count t

def toJson (r : Report) : Json :=
  .object [("best_trial", Json.ofOption Trial.toJson r.best),
    ("objective_metric", .text r.objective),
    ("trials_completed", Json.count r.completed),
    ("trials_failed", Json.count r.failed)]

def fields : List String :=
  ["objective_metric", "trials_completed", "trials_failed", "best_trial"]

def read : Json.Reader Report := fun depth d => do
  let r ← Json.Record.of? fields depth d
  some { objective := ← r.required "objective_metric" Json.Reader.text
         completed := ← r.required "trials_completed" Json.Reader.word64
         failed := ← r.required "trials_failed" Json.Reader.word64
         best := ← r.optional "best_trial" Trial.read }

end Report

end ServingSweep
