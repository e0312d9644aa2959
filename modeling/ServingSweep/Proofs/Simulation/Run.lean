import ServingSweep.Proofs.Keyed
import ServingSweep.Proofs.Run
import ServingSweep.Proofs.Sweep.Trail
import ServingSweep.Simulation.Run

/-!
Simulated runs. The simulation supplies every model of its plan, so a run comes to its end whatever
the server measures (`reports_every_trial`).
-/

namespace ServingSweep.Simulation
open Source

def benchOf (p : Plan) (simulate : Trial → Option Metrics) (id : Nat → Uuid) (now : Nat → Instant) :
    Bench where
  resources := resources p
  attempt t :=
    match simulate t with
    | some metrics => .ok metrics
    | none => .error failure
  id := id
  now := now

theorem bench_eq (p : Plan) :
    bench p = benchOf p (fun t => measure t.probe.variant.config t.probe.load)
      (fun n => ⟨BitVec.ofNat 128 n⟩) (fun _ => Instant.epoch) := rfl

theorem supplies {p : Plan} {m : Model} (listed : m ∈ p.models) : (resources p).Supplies m where
  own _ := by
    have stored : (Keyed.ofList (p.models.map (fun m => (m.name, base m.name)))).get? m.name =
        some (base m.name) := by
      -- Models of one name have one configuration, whichever of them is stored last.
      refine Keyed.get?_ofList_of_agree ?_ ?_
      · intro e member same
        obtain ⟨other, -, rfl⟩ := List.mem_map.mp member
        exact congrArg base same
      · rw [Keyed.keys, List.map_map]
        exact List.mem_map_of_mem (f := Model.name) listed
    have named : (Keyed.get? (base m.name) "name").bind Value.asText? = some m.name := by
      simp [base, Keyed.get?]
      rfl
    have found : (resources p).repository p.repository m.name = .ok (base m.name) := by
      simp only [resources, Repository.ofConfigs, stored, named, if_true]
    exact Resources.resolves_of_found found
  remote _ := ⟨server, rfl, fun _ => rfl, fun _ => rfl, fun _ _ => ⟨base m.name, rfl⟩⟩

/-! ### What a run reports -/

variable {p : Plan} {simulate : Trial → Option Metrics} {id : Nat → Uuid} {now : Nat → Instant}

theorem result_of_marked {t : Trial} (marked : (benchOf p simulate id now).Marked t) :
    t.result = simulate t.underway ∧
      t.status = if (simulate t.underway).isSome then .completed else .failed := by
  have attempted : (benchOf p simulate id now).attempt t.underway =
      match simulate t.underway with
      | some metrics => .ok metrics
      | none => .error failure := rfl
  unfold Bench.Marked at marked
  rw [attempted] at marked
  revert marked
  cases simulate t.underway with
  | some metrics => exact fun marked => ⟨marked.2.1, marked.1⟩
  | none => exact fun marked => ⟨marked.2.1, marked.1⟩

/-- No simulated run fails. -/
theorem exists_events (p : Plan) : ∃ reported, events p = .ok reported := by
  obtain ⟨parts, r, ran, -⟩ := Bench.exists_run (bench p) (fun m listed => supplies listed)
  refine ⟨r.events p.objective, ?_⟩
  rw [events, ran]
  rfl

/-- Whatever is measured for its trials, the run of a plan ends without a fault, and so does each
search in it, with all turns kept. Every probe that was given out counts once, as failed where
nothing was measured for it. The best that is reported is the first completed trial with the largest
objective. -/
theorem reports_every_trial (p : Plan) (simulate : Trial → Option Metrics) (id : Nat → Uuid)
    (now : Nat → Instant) :
    let b := benchOf p simulate id now
    ∃ (parts : List (List Trial × ModelSearch)) (r : Run),
      b.run = .ok (parts.map Prod.snd, r) ∧
      List.Forall₂ (fun pass part => b.Passed pass part.1 part.2) (Bench.agenda p) parts ∧
      r.trials = parts.flatMap Prod.fst ∧
      (∀ t ∈ r.trials, t.result = simulate t.underway ∧
        t.status = if (simulate t.underway).isSome then .completed else .failed) ∧
      let report := r.report p.objective
      let completed := r.trials.filter (fun t => t.status = .completed)
      report.completed + report.failed = (parts.map (fun part => part.2.issued)).sum ∧
      report.failed = r.trials.countP (fun t => (simulate t.underway).isNone) ∧
      (report.best = none ↔ ∀ t ∈ completed, report.valueOf t = none) ∧
      ∀ best, report.best = some best → FirstLargest report.valueOf completed best := by
  intro b
  obtain ⟨parts, r, ran, passed, trials⟩ := Bench.exists_run b (fun m listed => supplies listed)
  have each : ∀ part ∈ parts, part.2.issued = part.1.length ∧ ∀ t ∈ part.1, b.Marked t := by
    intro part inside
    obtain ⟨pass, -, passed⟩ := exists_of_mem_right passed inside
    exact ⟨passed.issued, passed.marked⟩
  have marked : ∀ t ∈ r.trials, b.Marked t := by
    rw [trials]
    intro t member
    obtain ⟨part, inside, member⟩ := List.mem_flatMap.mp member
    exact (each part inside).2 t member
  have marks : ∀ t ∈ r.trials, t.result = simulate t.underway ∧
      t.status = if (simulate t.underway).isSome then .completed else .failed :=
    fun t member => result_of_marked (marked t member)
  have issued : (parts.map (fun part => part.2.issued)).sum = r.trials.length := by
    rw [trials, List.length_flatMap]
    exact congrArg List.sum (List.map_congr_left (fun part inside => (each part inside).1))
  refine ⟨parts, r, ran, passed, trials, marks, ?_⟩
  intro report completed
  have picks : Picks report.valueOf completed report.best :=
    Bench.picks_completed p.objective marked
  refine ⟨(Bench.completed_add_failed p.objective marked).trans issued.symm, ?_,
    picks.eq_none_iff, ?_⟩
  · refine (Report.tells_ofTrials p.objective r.trials).failed.trans (List.countP_congr ?_)
    intro t member
    rw [(marks t member).2]
    cases simulate t.underway <;> simp
  · intro best same
    rw [same] at picks
    exact picks

end ServingSweep.Simulation
