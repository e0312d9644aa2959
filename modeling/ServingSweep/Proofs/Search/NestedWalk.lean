import ServingSweep.Proofs.Derivation
import ServingSweep.Proofs.Search.Composition
import ServingSweep.Proofs.Sweep.Offers
import ServingSweep.Proofs.Sweep.Walk

/-!
The search of a plan as two nested walks: the overrides of the server sweep row by row, and for
each of them all loads row by row. `Tour.reference` is that walk without sweeps, turns or
buffers; by `walk_of_nested` a driven search tries exactly its probes.
-/

namespace ServingSweep

/-! ### Server sweeps with a base configuration -/

namespace ServerSweep
open Source

/-- A server sweep that walks overrides of a model and can find its base. -/
structure Walking (r : Resources) (m : Model) (base : Config) (s : ServerSweep) : Prop where
  resources : s.resources = r
  model : s.model = m
  adaptive : s.strategy.isAdaptive = true
  base : s.base = none ∨ s.base = some base

variable {r : Resources} {m : Model} {base : Config}

theorem findBase_walking {s : ServerSweep} (walking : Walking r m base s)
    (found : r.repository r.plan.repository m.name = .ok base) (w : World) :
    s.findBase w = (.ok (base, { s with base := some base }), w) := by
  unfold findBase
  rcases walking.base with unknown | known
  · rw [unknown]
    simp only [Resources.base, walking.resources, walking.model, found]
  · have same : { s with base := some base } = s := by rw [← known]
    rw [known, same]

/-- What a pull gives is the variant of the current overrides, past the variant before. -/
theorem pull_walking {s : ServerSweep} (walking : Walking r m base s)
    (found : r.repository r.plan.repository m.name = .ok base) (w : World) :
    ((s.advance w).1.course.current? = none ∧
      ∃ last, Walking r m base last ∧ s.pull w = ⟨.ok none, last, (s.advance w).2⟩) ∨
    ∃ o given, (s.advance w).1.course.current? = some o ∧ Walking r m base given ∧
      given.course = (s.advance w).1.course.start.yielded ∧
      s.pull w = ⟨.ok (some (Variant.derive m o base (s.advance w).2).1), given,
        (Variant.derive m o base (s.advance w).2).2⟩ := by
  have kept : Walking r m base (s.advance w).1 :=
    ⟨walking.resources, walking.model, walking.adaptive, walking.base⟩
  have started : Walking r m base (s.advance w).1.start :=
    ⟨kept.resources, kept.model, kept.adaptive, kept.base⟩
  rcases pull_adaptive walking.adaptive w with ⟨finished, last, left, same⟩ | ⟨o, given, same⟩
  · refine .inl ⟨finished, last, ?_, same⟩
    rcases left with rfl | rfl
    · exact kept
    · exact started
  · refine .inr ⟨o, { (s.advance w).1.start with base := some base }.yielded, given,
      ⟨started.resources, started.model, started.adaptive, .inr rfl⟩, rfl, ?_⟩
    rw [same]
    simp only [offer, findBase_walking started found, started.model]

/-- A sweep that is fed once for the variant it gave out is past its overrides at the next pull,
whatever the pull comes to. -/
theorem stepped_fed {c : Course Overrides} {given : ServerSweep} {o : Overrides}
    (current : c.current? = some o) (course : given.course = c.start.yielded) (batch : Batch)
    (w later : World) :
    Course.Stepped c.start ((given.feed batch w).1.advance later).1.course
      (batch.best c.progress.metric) := by
  have step := Course.stepped_fed (c := c.start) current batch w later
  rw [← course] at step
  exact step

theorem neverFails_walking {s : ServerSweep} (walking : Walking r m base s)
    (found : r.repository r.plan.repository m.name = .ok base) : NeverFails s := by
  have resolves : r.Resolves m := fun w => ⟨base, w, by simp only [Resources.base, found]⟩
  exact neverFails_sweeps resolves ⟨walking.resources, walking.model, walking.adaptive⟩

end ServerSweep

/-! ### The reference -/

/-- How far a nested walk has come: the registry of names, and the probes tried with the results
of each. -/
structure Tour where
  names : Names
  tried : List (Probe × Batch) := []

namespace Tour

def serverRows (p : Plan) (m : Model) : List (List Overrides) :=
  if m.hasGrid then
    (Grid.choices m.axes).splitBy (fun a b => decide (a.rowKey = b.rowKey))
  else
    p.instances.all.toList.map (fun count =>
      p.batchSize.doublings.map (Ladder.overrides m.cpuOnly count))

def loadRows (p : Plan) (m : Model) (variant : String) : List (List Load) :=
  (LoadSweep.batchSizes m).map (fun size =>
    (LoadSweep.concurrencies p m).map (fun concurrency =>
      { variant := variant, batchSize := size, concurrency := concurrency, flags := m.flags }))

/-- Tries a load; its value is the best of its results. -/
def tryLoad (d : Driver Probe) (run : Uuid) (metric : String) (m : Model) (variant : Variant)
    (load : Load) (tried : List (Probe × Batch)) : Option Binary64 × List (Probe × Batch) :=
  let probe : Probe := ⟨run, tried.length, m.name, variant, load⟩
  let batch := d tried probe
  (batch.best metric, tried ++ [(probe, batch)])

/-- Tries all loads of the variant of some overrides; their value is the best of all results. -/
def tryOverrides (d : Driver Probe) (run : Uuid) (p : Plan) (m : Model) (base : Config)
    (o : Overrides) (tour : Tour) : Option Binary64 × Tour :=
  let (name, names) := tour.names.name m.name o
  let variant := Variant.build name m o base
  let tried := Walk.rows (p.loadEarlyExit m) (tryLoad d run p.objective m variant)
    (loadRows p m name) tour.tried
  let results := (tried.drop tour.tried.length).flatMap Prod.snd
  (Batch.best results p.objective, ⟨names, tried⟩)

/-- The probes of the nested walk of a plan, with the driver's results. -/
def reference (d : Driver Probe) (run : Uuid) (p : Plan) (m : Model) (base : Config)
    (names : Names) : List (Probe × Batch) :=
  (Walk.rows (p.serverEarlyExit m) (tryOverrides d run p m base) (serverRows p m) ⟨names, []⟩).tried

/-! ### Loads of one variant -/

variable {d : Driver Probe} {run : Uuid} {m : Model}
open Source Search

theorem visits_tryLoad {metric : String} {variant : Variant} {seen : List (Probe × Batch)}
    {t : List (Load × Batch)}
    (answers : d.Answers seen
      (numbered run m.name seen.length (t.map (fun tried => (variant, tried))))) :
    Walk.Visits (tryLoad d run metric m variant) metric seen t
      (seen ++ numbered run m.name seen.length (t.map (fun tried => (variant, tried)))) := by
  induction t generalizing seen with
  | nil => exact (List.append_nil _).symm
  | cons tried t ih =>
    obtain ⟨load, batch⟩ := tried
    obtain ⟨own, answers⟩ := answers
    subst own
    refine ⟨_, rfl, ?_⟩
    have further := @ih (seen ++ [(_, d seen _)]) (by
      rw [List.length_append]
      exact answers)
    rw [List.length_append, List.append_assoc] at further
    exact further

/-- A driven load sweep tries the loads of the walk. -/
theorem tried_of_plays {p : Plan} {variant : Variant} {w : World} {seen : List (Probe × Batch)}
    {t : List (Load × Batch)} {last : LoadSweep} {later : World}
    (play : Plays (Source.pull (LoadSweep.ofPlan p m variant.name) w) t last later)
    (answers : d.Answers seen
      (numbered run m.name seen.length (t.map (fun tried => (variant, tried))))) :
    Walk.rows (p.loadEarlyExit m) (tryLoad d run p.objective m variant)
        (loadRows p m variant.name) seen =
      seen ++ numbered run m.name seen.length (t.map (fun tried => (variant, tried))) := by
  have walked := Course.walk_of_plays play (c := LoadSweep.ofPlan p m variant.name) (w := w) rfl
    (visits_tryLoad answers)
  rw [Course.advance_of_settled rfl] at walked
  change Walk.resume (p.loadEarlyExit m) (tryLoad d run p.objective m variant) []
    (LoadSweep.rows variant.name (LoadSweep.batchSizes m) (LoadSweep.concurrencies p m)
      m.flags).lists seen = _ at walked
  rw [Walk.resume_nil, LoadSweep.rows, Walk.rows_table, Series.toList_ofList] at walked
  exact walked

theorem results_numbered (n : Nat) (model : String) (variant : Variant)
    (t : List (Load × Batch)) :
    (numbered run model n (t.map (fun tried => (variant, tried)))).flatMap Prod.snd =
      t.flatMap Prod.snd := by
  induction t generalizing n with
  | nil => rfl
  | cons tried t ih =>
    rw [List.map_cons, numbered, List.flatMap_cons, ih, List.flatMap_cons]

/-! ### Overrides of one plan -/

/-- A visit to some overrides tries the loads of their variant and is worth the best of all
results. -/
theorem tryOverrides_eq {p : Plan} {base : Config} {o : Overrides} {w₁ w : World}
    {seen : List (Probe × Batch)} {t : List (Load × Batch)} {last : LoadSweep} {later : World}
    (play : Plays
      (Source.pull (LoadSweep.ofPlan p m (Variant.derive m o base w₁).1.name) w) t last later)
    (answers : d.Answers seen (numbered run m.name seen.length
      (t.map (fun tried => ((Variant.derive m o base w₁).1, tried))))) :
    tryOverrides d run p m base o ⟨w₁.names, seen⟩ =
      (Batch.best (t.flatMap Prod.snd) p.objective,
        ⟨(Variant.derive m o base w₁).2.names, seen ++ numbered run m.name seen.length
          (t.map (fun tried => ((Variant.derive m o base w₁).1, tried)))⟩) := by
  have tried := tried_of_plays play answers
  have name : (Variant.derive m o base w₁).1.name = (w₁.names.name m.name o).1 :=
    Variant.name_build _ _ _ _
  rw [name] at tried
  change (Batch.best (((Walk.rows (p.loadEarlyExit m)
      (tryLoad d run p.objective m (Variant.derive m o base w₁).1)
      (loadRows p m (w₁.names.name m.name o).1) seen).drop seen.length).flatMap Prod.snd) _,
    (⟨_, Walk.rows (p.loadEarlyExit m)
      (tryLoad d run p.objective m (Variant.derive m o base w₁).1)
      (loadRows p m (w₁.names.name m.name o).1) seen⟩ : Tour)) = _
  rw [tried, List.drop_left, results_numbered]
  rfl

/-- A nested run of the sweeps of a plan is a nested walk. -/
theorem walk_of_nested {r : Resources} {base : Config}
    (found : r.repository r.plan.repository m.name = .ok base)
    {opened : List Variant} {pulled : Pulled ServerSweep Variant} {parts : Parts}
    {last : ServerSweep} {later : World}
    (nested : Nested (fun _ variant => LoadSweep.ofPlan r.plan m variant.name) opened pulled parts
      last later) :
    ∀ {s : ServerSweep} {w : World}, s.pull w = pulled → ServerSweep.Walking r m base s →
      (s.advance w).1.course.progress.metric = r.plan.objective →
      ∀ {seen : List (Probe × Batch)},
        d.Answers seen (numbered run m.name seen.length (flat parts)) →
        (s.advance w).1.course.walk (tryOverrides d run r.plan m base) ⟨w.names, seen⟩ =
          ⟨later.names, seen ++ numbered run m.name seen.length (flat parts)⟩ := by
  induction nested with
  | ended opened server w₁ =>
    intro s w pulled walking _ seen _
    rcases ServerSweep.pull_walking walking found w with
      ⟨finished, left, -, same⟩ | ⟨o, given, -, -, -, same⟩
    · rw [same] at pulled
      cases pulled
      rw [Course.walk_of_finished finished]
      change (⟨w.names, seen⟩ : Tour) = ⟨(s.course.advance w).2.names, seen ++ []⟩
      rw [Course.names_advance, List.append_nil]
    · rw [same] at pulled
      cases pulled
  | @variant variant opened server _ sweep w₁ drained later t rest loads further ih =>
    intro s w pulled walking metric seen answers
    rcases ServerSweep.pull_walking walking found w with
      ⟨-, left, -, same⟩ | ⟨o, given, current, kept, course, same⟩
    · rw [same] at pulled
      cases pulled
    · rw [same] at pulled
      cases pulled
      rw [flat_cons, numbered_append, Driver.answers_append] at answers
      obtain ⟨own, others⟩ := answers
      have visited := tryOverrides_eq loads own
      rw [show (s.advance w).2.names = w.names from Course.names_advance s.course w] at visited
      let derived := Variant.derive m o base (s.advance w).2
      let results := t.flatMap Prod.snd
      let told := drained.say (.sweepEnded derived.1.name results.length)
      let fed := server.feed results told
      have step := ServerSweep.stepped_fed current course results told fed.2
      rw [metric] at step
      have quiet : fed.2.names = derived.2.names :=
        (Course.names_of_plays loads).trans (Course.names_pull _ _)
      let tried := seen ++ numbered run m.name seen.length (t.map (fun tried => (derived.1, tried)))
      have length :
          tried.length = seen.length + (t.map (fun tried => (derived.1, tried))).length := by
        rw [List.length_append, length_numbered]
      have walked := ih (s := fed.1) (w := fed.2) rfl
        ⟨kept.resources, kept.model, kept.adaptive, kept.base⟩ (step.metric.trans metric)
        (by rw [← length] at others; exact others)
      rw [quiet, length, List.append_assoc] at walked
      rw [flat_cons, numbered_append, ← walked]
      exact Course.walk_stepped (c := (s.advance w).1.course.start) current visited step

/-! ### Searches of a plan -/

theorem walking_ofPlan {r : Resources} {base : Config} (own : r.plan.launch = .own)
    (swept : r.plan.baselineOnly = false) (w : World) :
    ServerSweep.Walking r m base (ServerSweep.ofPlan r m false w).1 := by
  refine ⟨rfl, rfl, ?_, .inl rfl⟩
  change (Strategy.ofPlan r.plan m false).isAdaptive = true
  simp only [Strategy.ofPlan, own, swept, reduceCtorEq, Bool.or_self, Bool.false_eq_true, if_false]
  split <;> rfl

theorem serverRows_ofPlan {σ : Type} {exit : Bool} {visit : Overrides → σ → Option Binary64 × σ}
    {p : Plan} (own : p.launch = .own) (swept : p.baselineOnly = false) (s : σ) :
    Walk.rows exit visit (Strategy.ofPlan p m false).rows.lists s =
      Walk.rows exit visit (serverRows p m) s := by
  simp only [Strategy.ofPlan, own, swept, reduceCtorEq, Bool.or_self, Bool.false_eq_true, if_false,
    serverRows]
  cases m.hasGrid with
  | true => exact congrArg (fun lists => Walk.rows exit visit lists s) (Rows.lists_ofBlocks _ _)
  | false => exact Walk.rows_table _ _ _ _

/-- The search of a model under a driver tries exactly the probes of the nested walk of its plan,
in order, and then ends. -/
theorem driven_iff_reference (r : Resources) (m : Model) (base : Config) (run : Uuid)
    (d : Driver Probe) (w : World) (own : r.plan.launch = .own)
    (swept : r.plan.baselineOnly = false)
    (found : r.repository r.plan.repository m.name = .ok base) (t : List (Probe × Batch)) :
    let search := Search.ofPlan r m false run w
    (d.Answers [] t ∧ ∃ last later, Plays (Source.pull search.1 search.2) t last later) ↔
      t = reference d run r.plan m base w.names := by
  intro search
  let server := ServerSweep.ofPlan r m false w
  have walking : ServerSweep.Walking r m base server.1 := walking_ofPlan own swept w
  obtain ⟨parts, ended, later, nested, answers⟩ := exists_nested d run m.name
    (fun _ variant => Course.neverFails (LoadSweep.ofPlan r.plan m variant.name)) server.1 server.2
    [] [] (ServerSweep.neverFails_walking walking found)
  obtain ⟨last, -, -, -, play⟩ := plays_of_nested nested
    (s := { search.1 with turn := search.1.turn.pulled.start }) rfl rfl rfl rfl rfl
  rw [← step_of_none rfl, ← steps_eq] at play
  have walked := walk_of_nested found nested (s := server.1) (w := server.2) rfl walking rfl answers
  have tried : numbered run m.name 0 (flat parts) = reference d run r.plan m base w.names := by
    change ((server.1.course.advance server.2).1.walk _ _) = _ at walked
    rw [Course.advance_of_settled rfl] at walked
    change Walk.resume (r.plan.serverEarlyExit m) (tryOverrides d run r.plan m base) []
      (Strategy.ofPlan r.plan m false).rows.lists ⟨w.names, []⟩ = _ at walked
    rw [Walk.resume_nil, serverRows_ofPlan own swept] at walked
    exact (congrArg Tour.tried walked).symm
  constructor
  · rintro ⟨own, last', later', play'⟩
    exact (plays_unique play' play own answers).1.trans tried
  · rintro rfl
    rw [← tried]
    exact ⟨answers, last, later, play⟩

def twoRungs : Plan := { earlyExit := true, instances := ⟨1, 2⟩, batchSize := ⟨1, 4⟩ }

def twoLoads : Model := { name := "m", pins := { concurrencies := [1, 2] } }

def bareModel : Resources :=
  { plan := twoRungs, repository := Repository.ofConfigs [("m", [])] }

/-- One request at a time is worth 1.0, more are worth nothing, on any variant. -/
def falling : Driver Probe := fun _ probe =>
  [some ⟨[("perf_throughput",
    ⟨if probe.load.concurrency = 1 then 0x3ff0000000000000 else 0⟩)]⟩]

/-- The second rung of each instance count is no better than the first, so its third is left. -/
theorem driven_iff_reference_falling :
    twoRungs.launch = .own ∧ twoRungs.baselineOnly = false ∧
    bareModel.repository twoRungs.repository "m" = .ok [] ∧
    let search := Search.ofPlan bareModel twoLoads false ⟨0⟩ {}
    ∃ t, (falling.Answers [] t ∧
        ∃ last later, Plays (Source.pull search.1 search.2) t last later) ∧
      t.map (fun e => (e.1.number, e.1.variant.name, e.1.load.concurrency)) =
        [(0, "m_config_0", 1), (1, "m_config_0", 2), (2, "m_config_1", 1), (3, "m_config_1", 2),
          (4, "m_config_2", 1), (5, "m_config_2", 2), (6, "m_config_3", 1),
          (7, "m_config_3", 2)] :=
  ⟨rfl, rfl, rfl, _,
    (driven_iff_reference bareModel twoLoads [] ⟨0⟩ falling {} rfl rfl rfl _).2 rfl,
    by decide +kernel⟩

end Tour
end ServingSweep
