import ServingSweep.Journal
import ServingSweep.LoadSweep
import ServingSweep.ServerSweep
import ServingSweep.Uuid

/-!
# Searches

A search profiles one model: for each variant of a server sweep it runs a load
sweep to its end. Results go to the load sweep at once and are gathered for the
server sweep, which gets all results of a variant together when its load sweep
ends. The server sweep, the load sweeps and their making are parameters.
-/

namespace ServingSweep

/-- A load of a variant that is to be tried. -/
structure Probe where
  /-- The search it belongs to. -/
  run : Uuid
  number : Nat
  model : String
  variant : Variant
  load : Load
  deriving DecidableEq

/-- A search over a server sweep `σ` and load sweeps `τ`. -/
structure Search (σ τ : Type) where
  model : String
  run : Uuid
  server : σ
  /-- Makes the load sweep of a variant, given the variants before it, the last first. -/
  makeLoad : List Variant → Variant → τ
  /-- The variants opened so far, the last first. -/
  opened : List Variant := []
  /-- The variants that were gone through, each with its load sweep as it ended. -/
  ended : Journal (Variant × τ) := {}
  /-- The variant under load, and its load sweep. -/
  current : Option (Variant × τ) := none
  /-- The results since the last variant ended. -/
  pending : Journal (Option Metrics) := {}
  turn : Turn := {}
  /-- The number of probes given out. -/
  issued : Nat := 0

abbrev ModelSearch := Search ServerSweep LoadSweep

namespace Search

variable {σ τ : Type} [FiniteSource σ Variant] [Source τ Load]

inductive Step (σ τ : Type) where
  /-- The pull is over. -/
  | finished (pulled : Pulled (Search σ τ) Probe)
  /-- A variant was opened; its load sweep is still to be pulled. -/
  | onward (search : Search σ τ) (world : World)

/-- The results since the last variant ended, in the order in which they came. -/
def gathered (s : Search σ τ) : Batch := s.pending.toList

/-- The load sweep of a variant has ended: the server sweep gets its results. -/
def close (s : Search σ τ) (variant : Variant) (sweep : τ) (w : World) : Search σ τ × World :=
  let w := w.say (.sweepEnded variant.name s.pending.length)
  let (server, w) := Source.feed s.server s.gathered w
  ({ s with server := server
            current := none
            ended := s.ended.push (variant, sweep)
            pending := {} }, w)

def openNext (s : Search σ τ) (w : World) : Step σ τ :=
  let p := Source.pull s.server w
  let s := { s with server := p.source }
  match p.result with
  | .error fault => .finished ⟨.error fault, s, p.world⟩
  | .ok none => .finished ⟨.ok none, s, p.world⟩
  | .ok (some variant) =>
    .onward { s with current := some (variant, s.makeLoad s.opened variant)
                     opened := variant :: s.opened }
      (p.world.say (.profiling variant.name))

def stepIn (s : Search σ τ) (variant : Variant) (sweep : τ) (w : World) : Step σ τ :=
  let p := Source.pull sweep w
  let s := { s with current := some (variant, p.source) }
  match p.result with
  | .error fault => .finished ⟨.error fault, s, p.world⟩
  | .ok (some load) =>
    let probe : Probe := ⟨s.run, s.issued, s.model, variant, load⟩
    .finished ⟨.ok (some probe), { s with issued := s.issued + 1, turn := s.turn.yielded }, p.world⟩
  | .ok none =>
    let (s, w) := s.close variant p.source p.world
    s.openNext w

def step (s : Search σ τ) (w : World) : Step σ τ :=
  match s.current with
  | some (variant, sweep) => s.stepIn variant sweep w
  | none => s.openNext w

/-! ### Pulling -/

omit [Source τ Load] in
theorem ahead_openNext {s next : Search σ τ} {w later : World}
    (opened : s.openNext w = .onward next later) :
    FiniteSource.ahead next.server < FiniteSource.ahead s.server := by
  unfold openNext at opened
  dsimp only at opened
  split at opened
  · cases opened
  · cases opened
  · next variant given =>
    cases opened
    exact FiniteSource.ahead_pull_lt s.server w variant given

theorem ahead_step {s next : Search σ τ} {w later : World}
    (opened : s.step w = .onward next later) :
    FiniteSource.ahead next.server < FiniteSource.ahead s.server := by
  unfold step at opened
  split at opened
  · next variant sweep _ =>
    unfold stepIn at opened
    dsimp only at opened
    split at opened
    · cases opened
    · cases opened
    · exact Nat.lt_of_lt_of_le (ahead_openNext opened) (FiniteSource.ahead_feed_le _ _ _)
  · exact ahead_openNext opened

/-- Steps until the pull is over. Each further step opens a variant, and the server sweep
has ever fewer of them to come. -/
def steps (s : Search σ τ) (w : World) : Pulled (Search σ τ) Probe :=
  match _ : s.step w with
  | .finished pulled => pulled
  | .onward s w => steps s w
termination_by FiniteSource.ahead s.server
decreasing_by exact ahead_step ‹_›

def pull (s : Search σ τ) (w : World) : Pulled (Search σ τ) Probe :=
  steps { s with turn := s.turn.pulled.start } (w.sayAll (s.turn.pullEvents s.model))

theorem steps_finished {s : Search σ τ} {w : World} {pulled : Pulled (Search σ τ) Probe}
    (h : s.step w = .finished pulled) : s.steps w = pulled := by
  rw [steps]
  split <;> simp_all

theorem steps_onward {s next : Search σ τ} {w later : World} (h : s.step w = .onward next later) :
    s.steps w = next.steps later := by
  rw [steps]
  split <;> simp_all

/-! ### Feeding -/

def feed (s : Search σ τ) (batch : Batch) (w : World) : Search σ τ × World :=
  let w := w.sayAll (s.turn.feedEvents s.model)
  let s := { s with turn := s.turn.accepted, pending := s.pending.append batch }
  match s.current with
  | none => (s, w)
  | some (variant, sweep) =>
    let (sweep, w) := Source.feed sweep batch w
    ({ s with current := some (variant, sweep) }, w)

def isDone (s : Search σ τ) : Bool := s.turn.started && s.current.isNone && Source.done s.server

instance : Source (Search σ τ) Probe where
  pull := pull
  feed := feed
  started s := s.turn.started
  done := isDone

def ofPlan (r : Resources) (m : Model) (baselineOnly : Bool) (run : Uuid) (w : World) :
    ModelSearch × World :=
  let (server, w) := ServerSweep.ofPlan r m baselineOnly w
  ({ model := m.name
     run := run
     server := server
     makeLoad := fun _ variant => LoadSweep.ofPlan r.plan m variant.name }, w)

end Search

end ServingSweep
