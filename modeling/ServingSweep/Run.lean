import ServingSweep.Report

/-!
# Runs

A run carries out a plan: every pass over every model and, pass by pass, every
probe that the search gives out. A bench says how a trial is tried. A run keeps
its trials in order; the report is what they amount to.
-/

namespace ServingSweep

/-- What a run is carried out with. -/
structure Bench where
  resources : Resources
  /-- How a begun trial is tried: its metrics, or why it failed. -/
  attempt : Trial → Except String Metrics
  /-- Identifiers and times, by a running number. -/
  id : Nat → Uuid
  now : Nat → Instant

structure Run where
  world : World := {}
  /-- The trials that ended. -/
  kept : Journal Trial := {}
  /-- The number of identifiers and times taken. -/
  taken : Nat := 0

def Report.ofTrials (objective : String) (trials : List Trial) : Report :=
  trials.foldl record { objective := objective }

namespace Bench

def plan (b : Bench) : Plan := b.resources.plan

/-! ### One trial -/

def begun (b : Bench) (taken : Nat) (probe : Probe) : Trial :=
  let pending : Trial := { id := b.id taken, probe := probe, created := b.now taken }
  pending.begin (b.now (taken + 1))

def tried (b : Bench) (taken : Nat) (probe : Probe) : Trial :=
  let t := b.begun taken probe
  match b.attempt t with
  | .ok metrics => t.complete (b.now (taken + 2)) metrics
  | .error reason => t.fail (b.now (taken + 2)) reason

/-- What an ended trial reports: why it failed, and what it gave for a metric. -/
def trialEvents (metric : String) (t : Trial) : List Event :=
  (t.reason.map (fun reason => Event.trialFailed t.probe.number reason)).toList ++
    [.trialEnded t.probe.variant.name t.probe.load (t.result.bind (·.values.get? metric))]

def keep (b : Bench) (t : Trial) (r : Run) : Run :=
  { world := r.world.sayAll (trialEvents b.plan.objective t)
    kept := r.kept.push t
    taken := r.taken + 3 }

/-! ### Searches -/

/-- Pulls, tries and feeds until the search ends. -/
def drain (b : Bench) : Nat → ModelSearch → Run → Except Fault (ModelSearch × Run)
  | 0, s, r => .ok (s, r)
  | fuel + 1, s, r =>
    let p := s.pull r.world
    let r := { r with world := p.world }
    match p.result with
    | .error fault => .error fault
    | .ok none => .ok (p.source, r)
    | .ok (some probe) =>
      let t := b.tried r.taken probe
      let r := b.keep t r
      let (s, world) := p.source.feed t.batch r.world
      drain b fuel s { r with world := world }

/-- No search of a model gives out more probes than this. -/
def probeBound (b : Bench) (m : Model) (s : ModelSearch) : Nat :=
  s.server.ahead *
    ((LoadSweep.batchSizes m).length * (LoadSweep.concurrencies b.plan m).length)

def pass (b : Bench) (m : Model) (baselineOnly : Bool) (r : Run) :
    Except Fault (ModelSearch × Run) :=
  let (s, world) := Search.ofPlan b.resources m baselineOnly (b.id r.taken) r.world
  b.drain (b.probeBound m s + 1) s { r with world := world, taken := r.taken + 1 }

def passes (b : Bench) : List (Model × Bool) → Run → Except Fault (List ModelSearch × Run)
  | [], r => .ok ([], r)
  | (m, baselineOnly) :: rest, r =>
    match b.pass m baselineOnly r with
    | .error fault => .error fault
    | .ok (s, r) =>
      match b.passes rest r with
      | .error fault => .error fault
      | .ok (ss, r) => .ok (s :: ss, r)

/-- The passes that a plan asks for, model by model. -/
def agenda (p : Plan) : List (Model × Bool) :=
  p.models.flatMap (fun m => p.passes.map (fun baselineOnly => (m, baselineOnly)))

def run (b : Bench) : Except Fault (List ModelSearch × Run) := b.passes (agenda b.plan) {}

end Bench

namespace Run

def trials (r : Run) : List Trial := r.kept.toList

def report (r : Run) (objective : String) : Report := Report.ofTrials objective r.trials

def closing (report : Report) : List Event :=
  .completed report.completed report.failed ::
    match report.best, report.bestValue with
    | some t, some value => [.best t.probe.variant.name t.probe.load value report.objective]
    | _, _ => [.noBest report.objective]

def events (r : Run) (objective : String) : List Event :=
  r.world.log ++ closing (r.report objective)

end Run

end ServingSweep
