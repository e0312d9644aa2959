import ServingSweep.Proofs.Report
import ServingSweep.Proofs.Search.Extent
import ServingSweep.Proofs.Search.Lifecycle
import ServingSweep.Proofs.Sweep.Supply

/-!
Runs carried out. `Drains` is the loop of a pass without a limit on its rounds: where the search does
not fail it comes to its end (`exists_drains`), and within the limit that a pass sets it
(`drain_eq`). `exists_run` goes through the passes of a plan that is supplied.
-/

namespace ServingSweep
open Source

/-- A trial that ended, as it was when it was tried. -/
def Trial.underway (t : Trial) : Trial :=
  { t with status := .running, result := none, finished := none, reason := none }

theorem Search.neverFails_ofPlan {r : Resources} {m : Model} (supplies : r.Supplies m)
    {baselineOnly : Bool} {run : Uuid} {w : World} :
    NeverFails (Search.ofPlan r m baselineOnly run w).1 := by
  have supplied := ServerSweep.supplied_of supplies baselineOnly (r.plan.serverEarlyExit m)
  exact Search.neverFails rfl (ServerSweep.neverFails_supplied supplied)
    (fun _ variant => Course.neverFails (LoadSweep.ofPlan r.plan m variant.name))

namespace Bench
variable {b : Bench}

/-! ### One trial -/

theorem underway_tried (b : Bench) (taken : Nat) (probe : Probe) :
    (b.tried taken probe).underway = b.begun taken probe := by
  unfold tried
  dsimp only
  split <;> rfl

@[simp] theorem probe_tried (b : Bench) (taken : Nat) (probe : Probe) :
    (b.tried taken probe).probe = probe := by
  unfold tried
  dsimp only
  split <;> rfl

def Marked (b : Bench) (t : Trial) : Prop :=
  match b.attempt t.underway with
  | .ok metrics => t.status = .completed ∧ t.result = some metrics ∧ t.reason = none
  | .error reason => t.status = .failed ∧ t.result = none ∧ t.reason = some reason

theorem marked_tried (b : Bench) (taken : Nat) (probe : Probe) :
    b.Marked (b.tried taken probe) := by
  unfold Marked
  rw [underway_tried]
  unfold tried
  dsimp only
  cases b.attempt (b.begun taken probe) with
  | ok metrics => exact ⟨rfl, rfl, rfl⟩
  | error reason => exact ⟨rfl, rfl, rfl⟩

/-! ### The loop of a pass -/

/-- Pulled, tried and fed until the search gives out nothing: the trials in order, and what is left
of the search and the run. -/
inductive Drains (b : Bench) :
    ModelSearch → Run → List Trial → ModelSearch → Run → Prop where
  | ended {s : ModelSearch} {r : Run} (finished : (s.pull r.world).result = .ok none) :
      Drains b s r [] (s.pull r.world).source { r with world := (s.pull r.world).world }
  | tries {s last : ModelSearch} {r later : Run} {probe : Probe} {trials : List Trial}
      (given : (s.pull r.world).result = .ok (some probe))
      (further :
        let t := b.tried r.taken probe
        let kept := b.keep t { r with world := (s.pull r.world).world }
        let fed := (s.pull r.world).source.feed t.batch kept.world
        Drains b fed.1 { kept with world := fed.2 } trials last later) :
      Drains b s r (b.tried r.taken probe :: trials) last later

namespace Drains
variable {s last : ModelSearch} {r later : Run} {trials : List Trial}

theorem drain_eq (drains : Drains b s r trials last later) :
    ∀ {fuel : Nat}, trials.length < fuel → b.drain fuel s r = .ok (last, later) := by
  induction drains with
  | ended finished =>
    intro fuel enough
    obtain ⟨fuel, rfl⟩ := Nat.exists_eq_add_one_of_ne_zero (Nat.ne_of_gt enough)
    simp only [drain, finished]
  | tries given further ih =>
    intro fuel enough
    obtain ⟨fuel, rfl⟩ := Nat.exists_eq_add_one_of_ne_zero (Nat.ne_zero_of_lt enough)
    simp only [drain, given]
    exact ih (Nat.lt_of_succ_lt_succ enough)

/-- The last call of the loop is a pull that gives out nothing. -/
theorem after (drains : Drains b s r trials last later) :
    ∀ {start : ModelSearch} {past : List (Deed Probe)}, After start past s →
      ∃ calls, After start (.pulled (.ok none) :: calls) last ∧
        Deed.given calls = Deed.given past ++ trials.map Trial.probe := by
  induction drains with
  | @ended s r finished =>
    intro start past reached
    have further : After start (.pulled (s.pull r.world).result :: past) (s.pull r.world).source :=
      reached.pull r.world
    rw [finished] at further
    exact ⟨past, further, (List.append_nil _).symm⟩
  | @tries s last r later probe trials given further ih =>
    intro start past reached
    have pulled : After start (.pulled (s.pull r.world).result :: past) (s.pull r.world).source :=
      reached.pull r.world
    rw [given] at pulled
    obtain ⟨calls, reached, same⟩ := ih (pulled.feed _ _)
    refine ⟨calls, reached, same.trans ?_⟩
    rw [List.map_cons, probe_tried]
    exact List.append_assoc (Deed.given past) [probe] _

theorem kept (drains : Drains b s r trials last later) : later.trials = r.trials ++ trials := by
  induction drains with
  | ended finished => exact (List.append_nil _).symm
  | @tries s last r later probe trials given further ih =>
    refine ih.trans ?_
    change (r.kept.push (b.tried r.taken probe)).toList ++ trials = _
    rw [Journal.toList_push, List.append_assoc]
    rfl

theorem marked (drains : Drains b s r trials last later) : ∀ t ∈ trials, b.Marked t := by
  induction drains with
  | ended finished => exact fun _ impossible => nomatch impossible
  | @tries s last r later probe trials given further ih =>
    exact List.forall_mem_cons.mpr ⟨marked_tried b r.taken probe, ih⟩

theorem isDone (drains : Drains b s r trials last later) : last.isDone = true := by
  induction drains with
  | @ended s r finished => exact (Search.pulled_ages ServerSweep.ages s r.world).2 finished
  | tries given further ih => exact ih

theorem violations (drains : Drains b s r trials last later) :
    s.turn.unreported = false → last.turn.violations = s.turn.violations := by
  induction drains with
  | @ended s r finished =>
    intro reported
    have nothing : ∀ probe, (Source.pull s r.world).result ≠ .ok (some probe) := by
      intro probe given
      cases given.symm.trans finished
    obtain ⟨started, turn⟩ := Search.takesTurns.rested nothing
    change (Source.pull s r.world).source.turn.violations = _
    rw [turn]
    exact Turn.violations_pulled reported
  | @tries s last r later probe trials given further ih =>
    intro reported
    have gave : (s.pull r.world).source.turn = s.turn.pulled.yielded :=
      Search.takesTurns.gave given
    let kept := b.keep (b.tried r.taken probe) { r with world := (s.pull r.world).world }
    have fed := Search.takesTurns.fed (s.pull r.world).source (b.tried r.taken probe).batch
      kept.world
    -- The trial that was given out is answered once before the next pull.
    have turn := fed.trans (congrArg Turn.accepted gave)
    refine (ih ?_).trans ?_
    · refine (congrArg Turn.unreported turn).trans ?_
      simp [Turn.unreported, Turn.accepted]
    · refine (congrArg Turn.violations turn).trans ?_
      rw [Turn.violations_accepted (by simp [Turn.unexpected, Turn.yielded])]
      exact Turn.violations_pulled reported

end Drains

theorem exists_drains (b : Bench) {start s : ModelSearch} {positions loads : Nat}
    {past : List (Deed Probe)} (bounded : Search.Bounded positions loads start)
    (unnumbered : Search.Counted [] start) (sound : NeverFails start)
    (reached : After start past s) (r : Run) :
    ∃ trials last later, Drains b s r trials last later := by
  -- Each round takes one of the probes that the search can still give out.
  generalize left : positions * loads - (Deed.given past).length = n
  induction n using Nat.strongRecOn generalizing past s r with
  | ind n ih =>
    cases result : (s.pull r.world).result with
    | error fault => exact absurd result (sound past s r.world fault reached)
    | ok given =>
      cases given with
      | none => exact ⟨[], _, _, .ended result⟩
      | some probe =>
        have pulled : After start (.pulled (s.pull r.world).result :: past)
            (s.pull r.world).source := reached.pull r.world
        rw [result] at pulled
        have within := (Search.issued_of_after bounded unnumbered pulled).2
        have further := (pulled.feed (b.tried r.taken probe).batch
          (b.keep (b.tried r.taken probe) { r with world := (s.pull r.world).world }).world)
        have fewer : positions * loads -
            (Deed.given (.pulled (.ok (some probe)) :: past)).length < n := by
          rw [Deed.given, List.length_append, List.length_singleton] at within ⊢
          omega
        obtain ⟨trials, last, later, drains⟩ := ih _ fewer further _ rfl
        exact ⟨_, last, later, .tries result drains⟩

/-! ### Passes -/

/-- How a pass ends: its search gave out nothing more, and there is a trial for each probe before, in
order. No call was out of turn, to the search, to its server sweep or to a load sweep. -/
structure Passed (b : Bench) (pass : Model × Bool) (trials : List Trial) (s : ModelSearch) :
    Prop where
  given : ∃ run w past, Deed.given past = trials.map Trial.probe ∧
    After (Search.ofPlan b.resources pass.1 pass.2 run w).1 (.pulled (.ok none) :: past) s
  marked : ∀ t ∈ trials, b.Marked t
  issued : s.issued = trials.length
  finished : s.isDone = true
  search : s.turn.violations = 0
  server : s.server.course.turn.violations = 0
  loads : ∀ sweep ∈ s.sweeps, sweep.turn.violations = 0

theorem exists_pass (b : Bench) {m : Model} (supplies : b.resources.Supplies m)
    (baselineOnly : Bool) (r : Run) :
    ∃ trials s later, b.pass m baselineOnly r = .ok (s, later) ∧
      Passed b (m, baselineOnly) trials s ∧ later.trials = r.trials ++ trials := by
  let start := Search.ofPlan b.resources m baselineOnly (b.id r.taken) r.world
  let positions := (Strategy.ofPlan b.plan m baselineOnly).positions
  let loads := (LoadSweep.batchSizes m).length * (LoadSweep.concurrencies b.plan m).length
  have bounded : Search.Bounded positions loads start.1 :=
    Search.bounded_ofPlan b.resources m baselineOnly (b.id r.taken) r.world
  have sound : NeverFails start.1 := Search.neverFails_ofPlan supplies
  obtain ⟨trials, last, later, drains⟩ := exists_drains b bounded rfl sound .start
    { r with world := start.2, taken := r.taken + 1 }
  obtain ⟨past, reached, given⟩ := drains.after .start
  obtain ⟨issued, most⟩ := Search.issued_of_after bounded rfl reached
  have numbers : (Deed.given (.pulled (.ok none) :: past)).length = trials.length := by
    simp [Deed.given, given]
  have enough : trials.length < b.probeBound m start.1 + 1 := by
    have bound : b.probeBound m start.1 = positions * loads := by
      unfold probeBound
      rw [show start.1.server.ahead = positions from ServerSweep.ahead_of _ _ _ _]
    omega
  have inTurn : last.turn.violations = 0 := drains.violations rfl
  obtain ⟨server, sweeps⟩ := Search.violations_of_ofPlan reached inTurn
  exact ⟨trials, last, later, drains.drain_eq enough,
    ⟨⟨_, _, past, given, reached⟩, drains.marked, issued.trans numbers, drains.isDone, inTurn,
      server, sweeps⟩, drains.kept⟩

theorem exists_passes (b : Bench) {passes : List (Model × Bool)}
    (supplies : ∀ pass ∈ passes, b.resources.Supplies pass.1) (r : Run) :
    ∃ parts later, b.passes passes r = .ok (parts.map Prod.snd, later) ∧
      List.Forall₂ (fun pass part => Passed b pass part.1 part.2) passes parts ∧
      later.trials = r.trials ++ parts.flatMap Prod.fst := by
  induction passes generalizing r with
  | nil => exact ⟨[], r, rfl, .nil, (List.append_nil _).symm⟩
  | cons pass passes ih =>
    obtain ⟨m, baselineOnly⟩ := pass
    obtain ⟨trials, s, mid, done, passed, kept⟩ :=
      exists_pass b (supplies (m, baselineOnly) List.mem_cons_self) baselineOnly r
    obtain ⟨parts, later, rest, others, further⟩ :=
      ih (fun pass inside => supplies pass (List.mem_cons_of_mem _ inside)) mid
    refine ⟨(trials, s) :: parts, later, ?_, .cons passed others, ?_⟩
    · simp only [Bench.passes, done, rest, List.map_cons]
    · rw [further, kept, List.flatMap_cons, List.append_assoc]

theorem exists_run (b : Bench) (supplies : ∀ m ∈ b.plan.models, b.resources.Supplies m) :
    ∃ parts r, b.run = .ok (parts.map Prod.snd, r) ∧
      List.Forall₂ (fun pass part => Passed b pass part.1 part.2) (agenda b.plan) parts ∧
      r.trials = parts.flatMap Prod.fst := by
  refine exists_passes b ?_ {}
  intro pass member
  obtain ⟨m, listed, inside⟩ := List.mem_flatMap.mp member
  obtain ⟨baselineOnly, -, rfl⟩ := List.mem_map.mp inside
  exact supplies m listed

/-! ### What a run reports -/

section Reports
variable {t : Trial} {trials : List Trial}

theorem Marked.ended (marked : b.Marked t) : t.ended = true := by
  unfold Marked at marked
  unfold Trial.ended
  split at marked
  · rw [marked.1]
  · rw [marked.1]

theorem Marked.completed (marked : b.Marked t) (measured : t.result ≠ none) :
    t.status = .completed := by
  unfold Marked at marked
  split at marked
  · exact marked.1
  · exact absurd marked.2.1 measured

theorem completed_add_failed (objective : String) (marked : ∀ t ∈ trials, b.Marked t) :
    (Report.ofTrials objective trials).completed + (Report.ofTrials objective trials).failed =
      trials.length := by
  have tells := Report.tells_ofTrials objective trials
  rw [tells.completed, tells.failed,
    List.length_eq_countP_add_countP (fun t => decide (t.status = .completed))]
  congr 1
  refine List.countP_congr ?_
  intro t member
  have ended := (marked t member).ended
  unfold Trial.ended at ended
  cases status : t.status <;> simp [status] at ended ⊢

theorem picks_completed (objective : String) (marked : ∀ t ∈ trials, b.Marked t) :
    let report := Report.ofTrials objective trials
    Picks report.valueOf (trials.filter (fun t => t.status = .completed)) report.best := by
  intro report
  have tells := Report.tells_ofTrials objective trials
  have picks := tells.best
  rw [List.filter_eq_self.mpr (fun t member => (marked t member).ended)] at picks
  change Picks report.valueOf trials report.best at picks
  cases same : report.best with
  | none =>
    rw [same] at picks
    exact fun t member => picks t (List.mem_filter.mp member).1
  | some best =>
    rw [same] at picks
    have first : FirstLargest report.valueOf trials best := picks
    refine first.filter (decide_eq_true ((marked best first.mem).completed ?_))
    obtain ⟨_, _, _, _, most, _⟩ := picks
    obtain ⟨metrics, result, -⟩ := Option.bind_eq_some_iff.mp most
    exact Option.ne_none_iff_exists'.mpr ⟨metrics, result⟩

end Reports

end Bench
end ServingSweep
