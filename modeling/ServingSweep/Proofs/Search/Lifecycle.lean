import ServingSweep.Proofs.Search.Conduct
import ServingSweep.Proofs.Search.Passes
import ServingSweep.Proofs.Sweep.Failures
import ServingSweep.Proofs.Sweep.Phases

/-!
The lifecycle of searches and sweeps. A search ages as its server sweep does (`ages`), and it is not
done while a load sweep is current (`busy_of_lived`). `lifecycle` puts the three machines together.
-/

namespace ServingSweep
namespace Search
open Source
variable {σ τ : Type}

def restocked (restock : Repository → σ → σ) (repository : Repository) (s : Search σ τ) :
    Search σ τ :=
  { s with server := restock repository s.server }

section Generic
variable [FiniteSource σ Variant] [Source τ Load] {restock : Repository → σ → σ}

theorem pulled_ages (ages : Ages restock) (s : Search σ τ) (w : World) :
    (Source.pull s w).source.turn.started = true ∧
      ((Source.pull s w).result = .ok none → (Source.pull s w).source.isDone = true) := by
  refine pull_rule (I := fun s _ => s.turn.started = true)
    (P := fun p => p.source.turn.started = true ∧ (p.result = .ok none → p.source.isDone = true))
    ?_ ?_ rfl
  · intro s w s' w' begun pass
    cases pass with
    | closes current ended => exact begun
    | opens idle given => exact begun
  · intro s w pulled begun stops
    cases stops with
    | gives current given => exact ⟨rfl, fun impossible => nomatch impossible⟩
    | loadFails current failed => exact ⟨begun, fun impossible => nomatch impossible⟩
    | serverFails idle failed => exact ⟨begun, fun impossible => nomatch impossible⟩
    | serverEnds idle ended =>
      refine ⟨begun, fun _ => ?_⟩
      simp only [isDone, begun, idle, (ages.pulled s.server w).2 ended, Option.isNone_none,
        Bool.and_self]

omit [Source τ Load] in
theorem isDone_iff {s : Search σ τ} :
    s.isDone = true ↔ s.turn.started = true ∧ s.current = none ∧ Source.done s.server = true := by
  simp only [isDone, Bool.and_eq_true, Option.isNone_iff_eq_none, and_assoc]

/-- A search that is done pulls its server sweep once more, which is done too. -/
theorem pull_of_done (ages : Ages restock) {s : Search σ τ} (finished : s.isDone = true)
    (w : World) :
    Source.pull s w = ⟨.ok none,
      { s with
        turn := s.turn.pulled.start
        server := (Source.pull s.server (w.sayAll (s.turn.pullEvents s.model))).source },
      (Source.pull s.server (w.sayAll (s.turn.pullEvents s.model))).world⟩ := by
  obtain ⟨-, idle, server⟩ := isDone_iff.mp finished
  have ended := (ages.idles s.server (w.sayAll (s.turn.pullEvents s.model)) server).ended
  exact steps_of_stops (.serverEnds (s := { s with turn := s.turn.pulled.start }) idle ended)

theorem ages (ages : Ages restock) : Ages (restocked restock : Repository → Search σ τ → _) where
  restocked repository s := by
    have kept := (ages.restocked repository s.server).2
    refine ⟨rfl, ?_⟩
    change (s.turn.started && s.current.isNone && Source.done (restock repository s.server)) = _
    rw [kept]
    rfl
  pulled := pulled_ages ages
  fed s batch w := by
    rcases feed_cases s batch w with ⟨idle, same⟩ | ⟨variant, sweep, later, current, same⟩
    · change (s.feed batch w).1.turn.started = _ ∧ (s.feed batch w).1.isDone = _
      rw [same]
      exact ⟨rfl, rfl⟩
    · change (s.feed batch w).1.turn.started = _ ∧ (s.feed batch w).1.isDone = s.isDone
      rw [same]
      refine ⟨rfl, ?_⟩
      simp only [isDone, current, Option.isNone_some, Bool.and_false, Bool.false_and]
  begun s finished := (isDone_iff.mp finished).1
  idles s w finished := by
    let told := w.sayAll (s.turn.pullEvents s.model)
    obtain ⟨begun, idle, server⟩ := isDone_iff.mp finished
    have idles := ages.idles s.server told server
    have ends := pull_of_done ages finished w
    refine ⟨congrArg Pulled.result ends, ?_, ?_, ?_⟩
    · intro repository
      have still : (restocked restock repository s).isDone = true :=
        isDone_iff.mpr ⟨begun, idle, (ages.restocked repository s.server).2.trans server⟩
      have alone := idles.alone repository
      rw [pull_of_done ages still w, ends]
      change (⟨_, { s with
          turn := _
          server := (Source.pull (restock repository s.server) told).source },
        (Source.pull (restock repository s.server) told).world⟩ : Pulled (Search σ τ) Probe) = _
      rw [alone]
      rfl
    · rw [ends]
      exact idles.calls
    · rw [ends]
      exact idles.names

/-! ### The trial at hand -/

/-- A trial that was given out and not stepped past has a load sweep, and only a search that has
begun has one. -/
structure Busy (past : List (Deed Probe)) (s : Search σ τ) : Prop where
  outstanding : Deed.outstanding past = true → s.current.isSome = true
  begun : s.current.isSome = true → s.turn.started = true

theorem busy_of_lived (ages : Ages restock) {start s : Search σ τ} {past : List (Deed Probe)}
    (fresh : start.current = none) (reached : Lived (restocked restock) start past s) :
    Busy past s := by
  induction reached with
  | start =>
    refine ⟨fun impossible => (nomatch impossible), fun under => ?_⟩
    rw [fresh] at under
    cases under
  | @pull past s _ repository w ih =>
    refine ⟨?_, fun _ => (pulled_ages ages _ w).1⟩
    obtain ⟨mid, -, ends⟩ := pull_moves (restocked restock repository s) w
    revert ends
    generalize Source.pull (restocked restock repository s) w = p
    obtain ⟨result, source, later⟩ := p
    intro ends given
    cases ends with
    | gives current given => rfl
    | loadFails current failed => rfl
    | serverFails idle failed => cases given
    | serverEnds idle ended => cases given
  | @feed past s _ batch w ih =>
    change Busy (.fed batch :: past) (s.feed batch w).1
    rcases feed_cases s batch w with ⟨idle, same⟩ | ⟨variant, sweep, later, current, same⟩
    · rw [same]
      exact ⟨ih.outstanding, ih.begun⟩
    · rw [same]
      exact ⟨fun _ => rfl, fun _ => ih.begun (by rw [current]; rfl)⟩

theorem Busy.running {past : List (Deed Probe)} {s : Search σ τ} (busy : Busy past s)
    (current : s.current.isSome = true) : Source.phase s = .running := by
  have begun := busy.begun current
  have under : s.isDone = false := by
    rw [Option.isSome_iff_ne_none] at current
    exact Bool.eq_false_iff.mpr (fun finished => current (isDone_iff.mp finished).2.1)
  change (if !s.turn.started then Phase.notStarted else if s.isDone then .done else .running) = _
  rw [begun, under]
  rfl

end Generic

/-- Load sweeps, server sweeps of every strategy and searches go through their phases one way and
stay at the end, under calls in any order of which any may fail; a search with a trial at hand is
still running. -/
theorem lifecycle :
    (∀ variant batchSizes concurrencies exit metric flags,
      OneWay (fun _ s => s) (LoadSweep.of variant batchSizes concurrencies exit metric flags)) ∧
    (∀ r m strategy exit, OneWay ServerSweep.stocked (ServerSweep.of r m strategy exit)) ∧
    ∀ r m baselineOnly run w,
      let start := (Search.ofPlan r m baselineOnly run w).1
      OneWay (restocked ServerSweep.stocked) start ∧
      ∀ past s, Lived (restocked ServerSweep.stocked) start past s →
        (Deed.outstanding past = true → s.current.isSome = true) ∧
        (s.current.isSome = true → Source.phase s = .running) := by
  refine ⟨?_, ?_, ?_⟩
  · intro variant batchSizes concurrencies exit metric flags
    exact Course.ages.oneWay rfl
  · intro r m strategy exit
    exact ServerSweep.ages.oneWay rfl
  · intro r m baselineOnly run w start
    refine ⟨(ages ServerSweep.ages).oneWay rfl, ?_⟩
    intro past s reached
    have busy := busy_of_lived ServerSweep.ages rfl reached
    exact ⟨busy.outstanding, busy.running⟩

/-! ### A search that is refused once -/

def lives (start : ModelSearch) : List Occasion → List (Deed Probe) × ModelSearch
  | [] => ([], start)
  | o :: earlier =>
    let (past, s) := lives start earlier
    match o.ask with
    | .pull =>
      let p := (restocked ServerSweep.stocked o.repository s).pull o.world
      (.pulled p.result :: past, p.source)
    | .feed batch => (.fed batch :: past, (s.feed batch o.world).1)

theorem lived_lives (start : ModelSearch) (os : List Occasion) :
    Lived (restocked ServerSweep.stocked) start (lives start os).1 (lives start os).2 := by
  induction os with
  | nil => exact .start
  | cons o earlier ih =>
    obtain ⟨ask, repository, w⟩ := o
    cases ask with
    | pull => exact ih.pull repository w
    | feed batch => exact ih.feed batch w

def refusedOnce : List Occasion :=
  let empty := Repository.ofConfigs []
  [⟨.pull, empty, {}⟩, ⟨.feed [none], empty, {}⟩]

def broken : Repository := fun _ model => .error (.invalid model "truncated")

/-- Then pulled to the end and once more, with a repository that breaks after the first trial. -/
def pulledOn : List Occasion :=
  let full := Repository.ofConfigs [("m", [])]
  [⟨.pull, broken, {}⟩, ⟨.feed [], broken, {}⟩, ⟨.pull, broken, {}⟩, ⟨.pull, broken, {}⟩,
    ⟨.pull, full, {}⟩]

theorem lifecycle_refusedOnce :
    let start := (Search.ofPlan hesitant Tour.twoLoads false ⟨0⟩ {}).1
    let refused := lives start refusedOnce
    let trying := lives start (pulledOn.drop 3 ++ refusedOnce)
    let finished := lives start (pulledOn ++ refusedOnce)
    refused.1.countP Deed.isFault = 1 ∧ Source.phase refused.2 ≠ .notStarted ∧
    Deed.outstanding trying.1 = true ∧ Source.phase trying.2 = .running ∧
    (Deed.given finished.1).map Probe.number = [0, 1] ∧
    .pulled (.ok none) ∈ finished.1 ∧ Source.phase finished.2 = .done ∧
    ∀ w, Idle (restocked ServerSweep.stocked) finished.2 w := by
  intro start refused trying finished
  obtain ⟨oneWay, busy⟩ := lifecycle.2.2 hesitant Tour.twoLoads false ⟨0⟩ {}
  have begun := oneWay.fresh (lived_lives start refusedOnce)
  have under : Deed.outstanding trying.1 = true := by decide +kernel
  have running := busy _ _ (lived_lives start (pulledOn.drop 3 ++ refusedOnce))
  have reached := lived_lives start (pulledOn ++ refusedOnce)
  have ended : .pulled (.ok none) ∈ finished.1 := by
    let before := (lives start (pulledOn.tail ++ refusedOnce)).2
    have last : ((restocked ServerSweep.stocked broken before).pull {}).result = .ok none := by
      decide +kernel
    rw [← last]
    exact List.mem_cons_self
  have done := oneWay.ended reached ended
  refine ⟨by decide +kernel, ?_, under, running.2 (running.1 under), by decide +kernel, ended, done,
    (oneWay.final reached done .start).2.2⟩
  intro fresh
  exact absurd (begun.mp fresh) (by decide +kernel)

end Search
end ServingSweep
