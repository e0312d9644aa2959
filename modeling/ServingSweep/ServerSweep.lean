import ServingSweep.Resources
import ServingSweep.Sweep.Course
import ServingSweep.Sweep.Strategy
import ServingSweep.Variant.Derive

/-!
# Server sweeps

A server sweep gives out the variants of one model along the course of its
strategy. A pull that fails gives nothing out, so the next one is for the same
step again; a sweep that walks nothing is over after its first pull.
-/

namespace ServingSweep

structure ServerSweep where
  resources : Resources
  model : Model
  strategy : Strategy
  /-- The base configuration, once it was found. -/
  base : Option Config := none
  course : Course Overrides

namespace ServerSweep

def of (r : Resources) (m : Model) (s : Strategy) (earlyExit : Bool) : ServerSweep where
  resources := r
  model := m
  strategy := s
  course :=
    { owner := m.name
      rows := s.rows
      earlyExit := earlyExit
      progress := { dimension := .batchSize, metric := r.plan.objective } }

def ofPlan (r : Resources) (m : Model) (baselineOnly : Bool) (w : World) : ServerSweep × World :=
  let strategy := Strategy.ofPlan r.plan m baselineOnly
  let earlyExit := r.plan.serverEarlyExit m
  (of r m strategy earlyExit, w.say (.strategyChosen m.name strategy.name earlyExit))

/-- Nothing is left to give out. A sweep that walks nothing is over once it began. -/
def isDone (s : ServerSweep) : Bool :=
  s.course.turn.started && (!s.strategy.isAdaptive || s.course.rows.isEmpty)

/-! ### Finding configurations -/

def remoteVariant (s : ServerSweep) (w : World) : Except Fault Variant × World :=
  match s.resources.askServer s.model.name (!s.resources.plan.keepLoaded) w with
  | (.error fault, w) => (.error fault, w)
  | (.ok config, w) =>
    let v : Variant := { name := s.model.name, config := config, tags := [.remote, .baseline] }
    (.ok (v.tagIf s.model.cpuOnly .cpuOnly), w.say (.usingReported s.model.name))

/-- The base configuration. Once found it is kept. -/
def findBase (s : ServerSweep) (w : World) : Except Fault (Config × ServerSweep) × World :=
  match s.base with
  | some base => (.ok (base, s), w)
  | none =>
    match s.resources.base s.model.name w with
    | (.error fault, w) => (.error fault, w)
    | (.ok base, w) => (.ok (base, { s with base := some base }), w)

/-! ### Giving out variants -/

def yielded (s : ServerSweep) : ServerSweep := { s with course := s.course.yielded }

def offerRemote (s : ServerSweep) (w : World) : Pulled ServerSweep Variant :=
  match s.remoteVariant w with
  | (.error fault, w) => ⟨.error fault, s, w⟩
  | (.ok variant, w) => ⟨.ok (some variant), s.yielded, w⟩

def offer (s : ServerSweep) (o : Overrides) (w : World) : Pulled ServerSweep Variant :=
  match s.findBase w with
  | (.error fault, w) => ⟨.error fault, s, w⟩
  | (.ok (base, s), w) =>
    let (variant, w) := Variant.derive s.model o base w
    ⟨.ok (some variant), s.yielded, w⟩

def current (s : ServerSweep) (w : World) : Pulled ServerSweep Variant :=
  match s.strategy with
  | .remote => s.offerRemote w
  | .baseline => s.offer [] w
  | .grid _ | .ladder _ =>
    match s.course.current? with
    | none => ⟨.ok none, s, w⟩
    | some o => s.offer o w

def advance (s : ServerSweep) (w : World) : ServerSweep × World :=
  let (course, w) := s.course.advance w
  ({ s with course := course }, w)

def start (s : ServerSweep) : ServerSweep := { s with course := s.course.start }

def pull (s : ServerSweep) (w : World) : Pulled ServerSweep Variant :=
  let (s, w) := s.advance w
  if s.isDone then ⟨.ok none, s, w⟩ else s.start.current w

def feed (s : ServerSweep) (batch : Batch) (w : World) : ServerSweep × World :=
  let (course, w) := s.course.feed batch w
  ({ s with course := course }, w)

/-! ### Variants to come -/

def ahead (s : ServerSweep) : Nat :=
  if s.strategy.isAdaptive then s.course.ahead else if s.course.turn.started then 0 else 1

/-- What a pull for the current variant comes to: the sweep as it was, or a variant
given out. -/
inductive Outcome (s : ServerSweep) : Pulled ServerSweep Variant → Prop where
  | withheld (result : Except Fault (Option Variant)) (w : World)
      (nothing : ∀ v, result ≠ .ok (some v)) : Outcome s ⟨result, s, w⟩
  | given (base : Option Config) (v : Variant) (w : World)
      (walked : s.strategy.isAdaptive = true → 0 < s.course.rows.left) :
      Outcome s ⟨.ok (some v), { s.yielded with base := base }, w⟩

theorem outcome_offer {s : ServerSweep}
    (walked : s.strategy.isAdaptive = true → 0 < s.course.rows.left) (o : Overrides) (w : World) :
    Outcome s (s.offer o w) := by
  unfold offer findBase
  cases s.base with
  | some base => exact .given _ _ _ walked
  | none =>
    dsimp only
    rcases s.resources.base s.model.name w with ⟨fault | base, w⟩
    · exact .withheld _ _ (fun _ h => nomatch h)
    · exact .given _ _ _ walked

theorem outcome_offerRemote {s : ServerSweep}
    (walked : s.strategy.isAdaptive = true → 0 < s.course.rows.left) (w : World) :
    Outcome s (s.offerRemote w) := by
  unfold offerRemote
  rcases s.remoteVariant w with ⟨fault | variant, w⟩
  · exact .withheld _ _ (fun _ h => nomatch h)
  · exact .given s.base _ _ walked

theorem outcome_current (s : ServerSweep) (w : World) : Outcome s (s.current w) := by
  have fixed {t : Strategy} (h : s.strategy = t) (still : t.isAdaptive = false) :
      s.strategy.isAdaptive = true → 0 < s.course.rows.left := by
    rw [h, still]
    exact fun impossible => nomatch impossible
  unfold current
  split
  · next h => exact outcome_offerRemote (fixed h rfl) w
  · next h => exact outcome_offer (fixed h rfl) _ w
  all_goals
    split
    · exact .withheld _ _ (fun _ h => nomatch h)
    · next found => exact outcome_offer (fun _ => Rows.left_pos found) _ w

/-- A pull ends with nothing given out, or gives out the current variant. -/
theorem outcome_pull (s : ServerSweep) (w : World) :
    (s.pull w).source = (s.advance w).1 ∧ (s.pull w).result = .ok none ∨
      Outcome (s.advance w).1.start (s.pull w) ∧ (s.advance w).1.isDone = false := by
  unfold pull
  dsimp only
  split
  · exact .inl ⟨rfl, rfl⟩
  · next running => exact .inr ⟨outcome_current _ _, by simpa using running⟩

theorem started_advance (s : ServerSweep) (w : World) :
    (s.advance w).1.course.turn.started = s.course.turn.started :=
  Course.started_advance s.course w

theorem ahead_adaptive {s : ServerSweep} (adaptive : s.strategy.isAdaptive = true) :
    s.ahead = s.course.ahead :=
  if_pos adaptive

theorem ahead_fixed {s : ServerSweep} (fixed : s.strategy.isAdaptive = false) :
    s.ahead = if s.course.turn.started then 0 else 1 := by
  simp [ahead, fixed]

theorem ahead_advance (s : ServerSweep) (w : World) : (s.advance w).1.ahead ≤ s.ahead := by
  cases kind : s.strategy.isAdaptive with
  | true =>
    rw [ahead_adaptive kind, ahead_adaptive (s := (s.advance w).1) kind]
    exact Nat.le_trans (Nat.sub_le _ _) (Course.left_advance_le s.course w)
  | false =>
    have same : (s.advance w).1.ahead = s.ahead := by
      rw [ahead_fixed kind, ahead_fixed (s := (s.advance w).1) kind, started_advance]
    exact Nat.le_of_eq same

theorem ahead_start (s : ServerSweep) : s.start.ahead ≤ s.ahead := by
  cases kind : s.strategy.isAdaptive with
  | true =>
    have same := ahead_adaptive (s := s.start) kind
    exact Nat.le_of_eq (same.trans (ahead_adaptive kind).symm)
  | false =>
    rw [ahead_fixed (s := s.start) kind]
    exact Nat.zero_le _

/-- Giving out a variant leaves fewer to come, where none is outstanding. -/
theorem ahead_given {s : ServerSweep} (base : Option Config)
    (settled : s.course.turn.outstanding = false) (running : s.isDone = false)
    (walked : s.strategy.isAdaptive = true → 0 < s.course.rows.left) :
    { s.start.yielded with base := base }.ahead < s.ahead := by
  cases kind : s.strategy.isAdaptive with
  | true =>
    rw [ahead_adaptive kind, ahead_adaptive (s := { s.start.yielded with base := base }) kind]
    simp only [Course.ahead, settled]
    exact Nat.sub_lt (walked kind) Nat.one_pos
  | false =>
    have fresh : s.course.turn.started = false := by simpa [isDone, kind] using running
    rw [ahead_fixed kind, ahead_fixed (s := { s.start.yielded with base := base }) kind, fresh]
    exact Nat.one_pos

theorem ahead_pull (s : ServerSweep) (w : World) :
    (s.pull w).source.ahead ≤ s.ahead ∧
      ∀ v, (s.pull w).result = .ok (some v) → (s.pull w).source.ahead < s.ahead := by
  have advanced := ahead_advance s w
  rcases outcome_pull s w with ⟨source, result⟩ | ⟨outcome, running⟩
  · rw [source, result]
    exact ⟨advanced, fun _ h => nomatch h⟩
  · have started := Nat.le_trans (ahead_start (s.advance w).1) advanced
    revert outcome
    generalize s.pull w = pulled
    intro outcome
    cases outcome with
    | withheld result w' nothing => exact ⟨started, fun v h => absurd h (nothing v)⟩
    | given base v w' walked =>
      have fewer := ahead_given base (Course.outstanding_advance s.course w) running walked
      have less := Nat.lt_of_lt_of_le fewer advanced
      exact ⟨Nat.le_of_lt less, fun _ _ => less⟩

theorem ahead_feed (s : ServerSweep) (batch : Batch) (w : World) :
    (s.feed batch w).1.ahead = s.ahead := rfl

instance : FiniteSource ServerSweep Variant where
  pull := pull
  feed := feed
  started s := s.course.turn.started
  done := isDone
  ahead := ahead
  ahead_pull_le s w := (ahead_pull s w).1
  ahead_pull_lt s w := (ahead_pull s w).2
  ahead_feed_le s batch w := Nat.le_of_eq (ahead_feed s batch w)

end ServerSweep

end ServingSweep
