import Mathlib.Data.List.Induction
import ServingSweep.Proofs.Names
import ServingSweep.Proofs.Search.Moves
import ServingSweep.Proofs.Search.NestedWalk
import ServingSweep.Proofs.Search.Passes
import ServingSweep.Proofs.Sweep.Additions
import ServingSweep.Proofs.Sweep.Asks
import ServingSweep.Proofs.Sweep.Combinations
import ServingSweep.Proofs.Sweep.Turns

/-!
Searches without early exit of models with a grid and pinned concurrencies. The trials of such a
search are a `product` fixed beforehand: each pull gives out the next of them, whatever was fed
(`pull_stands`), so two runs with different results agree trial by trial.
-/

namespace ServingSweep
open Source

namespace Search

/-! ### The product -/

section
variable (m : Model) (base : Config)

/-- The variant of a combination of the grid, named by its first use among all of them. -/
def variantOf (o : Overrides) : Variant :=
  let calls : List Names.Call := (Grid.combinations m.axes).map (fun o => (m.name, o))
  Variant.build (Names.title calls (m.name, o)) m o base

def pinnedLoads (variant : String) : List Load :=
  (LoadSweep.batchSizes m).flatMap (fun size =>
    m.pins.concurrencies.map (fun concurrency => ⟨variant, size, concurrency, m.flags⟩))

def trialsOf (o : Overrides) : List (Variant × Load) :=
  (pinnedLoads m (variantOf m base o).name).map (fun load => (variantOf m base o, load))

/-- Each combination of the grid with each batch size and each pinned concurrency. -/
def product : List (Variant × Load) := (Grid.combinations m.axes).flatMap (trialsOf m base)

def coming (s : ModelSearch) : List (Variant × Load) :=
  s.current.toList.flatMap (fun under => under.2.coming.map (fun load => (under.1, load))) ++
    s.server.course.coming.flatMap (trialsOf m base)

/-- A server sweep on its way through the combinations, each named in its turn. -/
structure Offering (r : Resources) (s : ServerSweep) (names : Names) : Prop where
  walking : ServerSweep.Walking r m base s
  patient : s.course.earlyExit = false
  named : ∃ past, Grid.combinations m.axes = past ++ s.course.coming ∧
    Names.Recorded names (past.map (fun o => (m.name, o)))

/-- A search, after some pulls, with the rest of its product before it. -/
structure Stands (r : Resources) (run : Uuid) (pulls : Nat) (s : ModelSearch) (w : World) :
    Prop where
  model : s.model = m.name
  run : s.run = run
  server : Offering m base r s.server w.names
  loads : s.makeLoad = fun _ variant => LoadSweep.ofPlan r.plan m variant.name
  under : ∀ variant sweep, s.current = some (variant, sweep) → sweep.earlyExit = false
  rest : coming m base s = (product m base).drop pulls
  issued : s.issued = min pulls (product m base).length
  calm : w.Calm

end

variable {m : Model} {base : Config} {r : Resources} {run : Uuid}

theorem coming_of_current {s : ModelSearch} {variant : Variant} {sweep : LoadSweep}
    (current : s.current = some (variant, sweep)) :
    coming m base s = sweep.coming.map (fun load => (variant, load)) ++
      s.server.course.coming.flatMap (trialsOf m base) := by
  rw [coming, current]
  simp

theorem coming_of_idle {s : ModelSearch} (idle : s.current = none) :
    coming m base s = s.server.course.coming.flatMap (trialsOf m base) := by
  rw [coming, idle]
  rfl

/-- The sweep of a pinned model is over all its loads, whatever comes of them. -/
theorem ofPlan_pinned (thorough : r.plan.earlyExit = false) (pinned : m.pins.concurrencies ≠ [])
    (variant : String) :
    (LoadSweep.ofPlan r.plan m variant).coming = pinnedLoads m variant ∧
      (LoadSweep.ofPlan r.plan m variant).earlyExit = false := by
  have some : m.pins.concurrencies.isEmpty = false := List.isEmpty_eq_false_iff.mpr pinned
  refine ⟨?_, ?_⟩
  · rw [Course.coming_of_settled rfl]
    change (LoadSweep.rows variant (LoadSweep.batchSizes m) (LoadSweep.concurrencies r.plan m)
      m.flags).items = _
    rw [LoadSweep.rows, Rows.items_table, Series.toList_ofList, LoadSweep.concurrencies, some]
    rfl
  · change r.plan.loadEarlyExit m = false
    rw [Plan.loadEarlyExit, thorough, some]
    rfl

/-! ### Pulls of the server sweep -/

/-- The title of a call does not depend on the calls after it. -/
theorem title_cons (past rest : List Names.Call) (call : Names.Call) :
    Names.title (past ++ call :: rest) call = Names.title (past ++ [call]) call := by
  rw [List.append_cons]
  exact Names.title_append (by simp) rest

/-- A pull of the server sweep gives out the variant of the next combination. -/
theorem pull_offering {s : ServerSweep} {w : World} (offering : Offering m base r s w.names)
    (found : r.repository r.plan.repository m.name = .ok base) :
    (s.pull w).result = .ok (s.course.coming.head?.map (variantOf m base)) ∧
      Offering m base r (s.pull w).source (s.pull w).world.names ∧
      (s.pull w).source.course.coming = s.course.coming.tail ∧
      (w.Calm → (s.pull w).world.Calm) := by
  obtain ⟨walking, patient, past, whole, recorded⟩ := offering
  have items : (s.advance w).1.course.rows.items = s.course.coming :=
    Course.items_advance patient w
  have still : (s.advance w).1.course.earlyExit = false := Course.patient_advance patient w
  have settled : (s.advance w).1.course.turn.outstanding = false :=
    Course.outstanding_advance s.course w
  have names : (s.advance w).2.names = w.names := Course.names_advance s.course w
  have calm : w.Calm → (s.advance w).2.Calm := Course.calm_advance patient
  have first : (s.advance w).1.course.current? = s.course.coming.head? := by
    rw [Course.current?, Rows.current?_eq, items]
  have kept : ServerSweep.Walking r m base (s.advance w).1.start :=
    ⟨walking.resources, walking.model, walking.adaptive, walking.base⟩
  -- Either nothing is coming, or the first of it is named in a table that holds those before it.
  rcases ServerSweep.pull_adaptive walking.adaptive w with
    ⟨finished, last, left, same⟩ | ⟨o, given, same⟩
  · rw [finished] at first
    have nothing : s.course.coming = [] := List.head?_eq_none_iff.mp first.symm
    have course : last.course.earlyExit = false ∧ last.course.coming = [] ∧
        ServerSweep.Walking r m base last := by
      have empty := (Course.coming_of_settled settled).trans (items.trans nothing)
      rcases left with rfl | rfl
      · exact ⟨still, empty, kept.resources, kept.model, kept.adaptive, kept.base⟩
      · exact ⟨still, empty, kept⟩
    obtain ⟨still, empty, kept⟩ := course
    rw [same, nothing]
    refine ⟨rfl, ⟨kept, still, past, ?_, ?_⟩, empty, calm⟩
    · rw [empty, ← nothing]
      exact whole
    · rw [names]
      exact recorded
  · rw [given] at first
    obtain ⟨rest, coming⟩ := List.head?_eq_some_iff.mp first.symm
    have pulled : s.pull w = ⟨.ok (some (Variant.derive m o base (s.advance w).2).1),
        { (s.advance w).1.start with base := some base }.yielded,
        (Variant.derive m o base (s.advance w).2).2⟩ := by
      rw [same]
      simp only [ServerSweep.offer, ServerSweep.findBase_walking kept found, kept.model]
    obtain ⟨name, recorded⟩ := Names.recorded_name recorded (m.name, o)
    rw [← names] at name recorded
    rw [coming] at whole items
    have title : ((s.advance w).2.names.name m.name o).1 =
        Names.title ((Grid.combinations m.axes).map (fun o => (m.name, o))) (m.name, o) := by
      rw [name, whole, List.map_append, List.map_cons]
      exact (title_cons _ _ _).symm
    rw [pulled, coming]
    refine ⟨?_, ⟨⟨kept.resources, kept.model, kept.adaptive, .inr rfl⟩, still, past ++ [o], ?_, ?_⟩,
      congrArg List.tail items, ?_⟩
    · exact congrArg (fun name => Except.ok (some (Variant.build name m o base))) title
    · change _ = past ++ [o] ++ (s.advance w).1.course.rows.items.tail
      rw [items, whole, List.append_cons]
      rfl
    · rw [List.map_append]
      exact recorded
    · intro before
      exact World.calm_sayAll (calm before)
        (fun e member => (Variant.making_buildEvents _ o e member).plain)

/-! ### Pulls of the search -/

/-- Within a pull the rest of the product stays as it is. -/
theorem stands_pass (thorough : r.plan.earlyExit = false) (pinned : m.pins.concurrencies ≠ [])
    (found : r.repository r.plan.repository m.name = .ok base) {pulls : Nat} {s s' : ModelSearch}
    {w w' : World} (stands : Stands m base r run pulls s w) (pass : Pass s w s' w') :
    Stands m base r run pulls s' w' := by
  obtain ⟨model, same, server, loads, under, rest, issued, calm⟩ := stands
  cases pass with
  | @closes variant sweep current ended =>
    obtain ⟨result, -, -, quiet⟩ := Course.pull_patient (under variant sweep current) w
    have nothing : sweep.coming = [] := by
      have last : Except.ok sweep.coming.head? = (Except.ok none : Except Fault (Option Load)) :=
        result.symm.trans ended
      exact List.head?_eq_none_iff.mp (Except.ok.inj last)
    rw [coming_of_current current, nothing] at rest
    obtain ⟨walking, patient, past, whole, recorded⟩ := server
    have names : (Source.pull sweep w).world.names = w.names := Course.names_pull sweep w
    refine ⟨model, same,
      ⟨⟨walking.resources, walking.model, walking.adaptive, walking.base⟩, patient, past, whole, ?_⟩,
      loads, (fun _ _ impossible => nomatch impossible), rest, issued, ?_⟩
    · change Names.Recorded (Source.pull sweep w).world.names _
      rw [names]
      exact recorded
    · exact Course.calm_feed s.server.course s.gathered (World.calm_say (quiet calm) rfl)
  | @opens variant idle given =>
    obtain ⟨result, server, left, quiet⟩ := pull_offering server found
    rw [coming_of_idle idle] at rest
    cases coming : s.server.course.coming with
    | nil =>
      rw [coming] at result
      cases given.symm.trans result
    | cons o later =>
      rw [coming] at result left rest
      obtain rfl : variant = variantOf m base o :=
        Option.some.inj (Except.ok.inj (given.symm.trans result))
      obtain ⟨own, still⟩ := ofPlan_pinned thorough pinned (variantOf m base o).name
      refine ⟨model, same, server, loads, ?_, ?_, issued, World.calm_say (quiet calm) rfl⟩
      · rintro variant sweep current
        cases current
        rw [loads]
        exact still
      · rw [coming_of_current rfl, ← rest, loads, own]
        change _ ++ (s.server.pull w).source.course.coming.flatMap (trialsOf m base) = _
        rw [left]
        rfl

def probeAt (m : Model) (run : Uuid) (number : Nat) (trial : Variant × Load) : Probe :=
  ⟨run, number, m.name, trial.1, trial.2⟩

/-- A pull gives out the next trial of the product, and ends when there is none. -/
theorem pull_stands (thorough : r.plan.earlyExit = false) (pinned : m.pins.concurrencies ≠ [])
    (found : r.repository r.plan.repository m.name = .ok base) {pulls : Nat} {s : ModelSearch}
    {w : World} (stands : Stands m base r run pulls s w) :
    (Source.pull s w).result = .ok ((product m base)[pulls]?.map (probeAt m run pulls)) ∧
      Stands m base r run (pulls + 1) (Source.pull s w).source (Source.pull s w).world := by
  refine pull_rule (I := Stands m base r run pulls)
    (P := fun p => p.result = .ok ((product m base)[pulls]?.map (probeAt m run pulls)) ∧
      Stands m base r run (pulls + 1) p.source p.world)
    (stands_pass thorough pinned found) ?_ ?_
  · intro s w p stands stops
    obtain ⟨model, same, server, loads, under, rest, issued, calm⟩ := stands
    -- What is coming first is the trial at `pulls`, which decides the ways to stop that are left.
    have head := (congrArg List.head? rest).trans List.head?_drop
    have tail := (congrArg List.tail rest).trans List.tail_drop
    cases stops with
    | @gives variant sweep load current given =>
      obtain ⟨result, left, still, quiet⟩ := Course.pull_patient (under variant sweep current) w
      obtain ⟨later, coming⟩ : ∃ later, sweep.coming = load :: later :=
        List.head?_eq_some_iff.mp (Except.ok.inj (result.symm.trans given))
      rw [coming_of_current current, coming] at head tail
      have at_pulls : (product m base)[pulls]? = some (variant, load) := head.symm
      have less : pulls < (product m base).length := (List.getElem?_eq_some_iff.mp at_pulls).1
      have number : s.issued = pulls := by omega
      rw [at_pulls]
      refine ⟨?_, model, same, ?_, loads, ?_, ?_, ?_, quiet calm⟩
      · rw [model, same, number]
        rfl
      · change Offering m base r s.server (Source.pull sweep w).world.names
        rw [show (Source.pull sweep w).world.names = w.names from Course.names_pull sweep w]
        exact server
      · rintro variant sweep current
        cases current
        exact still
      · rw [coming_of_current rfl, ← tail]
        change (sweep.pull w).source.coming.map _ ++ _ = _
        rw [left, coming]
        rfl
      · change s.issued + 1 = _
        omega
    | @loadFails variant sweep fault current failed =>
      obtain ⟨result, -⟩ := Course.pull_patient (under variant sweep current) w
      cases failed.symm.trans result
    | serverFails idle failed =>
      cases failed.symm.trans (pull_offering server found).1
    | serverEnds idle ended =>
      obtain ⟨result, kept, left, quiet⟩ := pull_offering server found
      have nothing : s.server.course.coming = [] := by
        have last := Except.ok.inj (ended.symm.trans result)
        exact List.head?_eq_none_iff.mp (Option.map_eq_none_iff.mp last.symm)
      rw [coming_of_idle idle, nothing] at head tail
      have at_pulls : (product m base)[pulls]? = none := head.symm
      have none_left : (product m base).length ≤ pulls := List.getElem?_eq_none_iff.mp at_pulls
      rw [at_pulls]
      refine ⟨rfl, model, same, kept, loads, under, ?_, ?_, quiet calm⟩
      · rw [← tail]
        refine (coming_of_idle (s := { s with server := (s.server.pull w).source }) idle).trans ?_
        rw [left, nothing]
        rfl
      · change s.issued = _
        omega
  · obtain ⟨model, same, server, loads, under, rest, issued, calm⟩ := stands
    exact ⟨model, same, server, loads, under, rest, issued,
      World.calm_sayAll calm (s.turn.plain_pullEvents s.model)⟩

theorem feed_stands {pulls : Nat} {s : ModelSearch} {w : World}
    (stands : Stands m base r run pulls s w) (batch : Batch) :
    Stands m base r run pulls (Source.feed s batch w).1 (Source.feed s batch w).2 := by
  obtain ⟨model, same, server, loads, under, rest, issued, calm⟩ := stands
  have told := World.calm_sayAll calm (s.turn.plain_feedEvents s.model)
  change Stands m base r run pulls (s.feed batch w).1 (s.feed batch w).2
  unfold feed
  dsimp only
  split
  · exact ⟨model, same, server, loads, under, rest, issued, told⟩
  · next variant sweep current =>
    refine ⟨model, same, server, loads, ?_, ?_, issued, Course.calm_feed sweep batch told⟩
    · rintro variant' sweep' fed
      cases fed
      exact under variant sweep current
    · rw [coming_of_current current] at rest
      exact (@coming_of_current m base _ variant (sweep.feed batch _).1 rfl).trans rest

/-! ### Whole runs -/

/-- The search of a model with a grid begins with its whole product before it. -/
theorem stands_ofPlan (own : r.plan.launch = .own) (thorough : r.plan.earlyExit = false)
    (swept : r.plan.baselineOnly = false) (filled : ∃ axis ∈ m.axes, axis.values ≠ []) :
    Stands m base r run 0 (ofPlan r m false run {}).1 (ofPlan r m false run {}).2 := by
  have grid : m.hasGrid = true := by
    obtain ⟨axis, member, values⟩ := filled
    exact List.any_eq_true.mpr ⟨axis, member, by simpa using values⟩
  have strategy : Strategy.ofPlan r.plan m false = .grid (Grid.ofAxes m.axes) := by
    simp only [Strategy.ofPlan, own, swept, grid, reduceCtorEq, Bool.or_self, Bool.false_eq_true,
      if_false, if_true]
  have coming : (ofPlan r m false run {}).1.server.course.coming = Grid.combinations m.axes := by
    rw [Course.coming_of_settled rfl]
    change (Strategy.ofPlan r.plan m false).rows.items = _
    rw [strategy, ← Grid.choices_eq_combinations filled]
    exact Rows.items_ofBlocks _ _
  refine ⟨rfl, rfl,
    ⟨Tour.walking_ofPlan own swept {}, ?_, [], coming.symm, Names.recorded_empty⟩, rfl, ?_, ?_,
    (Nat.zero_min _).symm, ?_⟩
  · change (r.plan.earlyExit || !m.hasGrid) = false
    rw [thorough, grid]
    rfl
  · rintro variant sweep ⟨⟩
  · refine (coming_of_idle rfl).trans ?_
    rw [coming]
    rfl
  · have silent : ({} : World).Calm := fun _ member => absurd member List.not_mem_nil
    exact World.calm_say silent rfl

/-- What a run over a list of trials has come to after some pulls. -/
structure Recites (trials : List (Variant × Load)) (m : Model) (run : Uuid) (pulls : Nat)
    (past : List (Deed Probe)) : Prop where
  given : Deed.given past = (trials.take pulls).mapIdx (probeAt m run)
  /-- A pull that gives nothing is the end, and comes after the last trial only. -/
  ends : ∀ later result before, past = later ++ .pulled result :: before →
    (∀ p, result ≠ .ok (some p)) →
    result = .ok none ∧ (Deed.given before).length = trials.length

theorem recites_pulled {trials : List (Variant × Load)} {pulls : Nat} {past : List (Deed Probe)}
    (recites : Recites trials m run pulls past) :
    Recites trials m run (pulls + 1)
      (.pulled (.ok (trials[pulls]?.map (probeAt m run pulls))) :: past) := by
  obtain ⟨given, ends⟩ := recites
  refine ⟨?_, ?_⟩
  · cases at_pulls : trials[pulls]? with
    | none =>
      have whole : trials.length ≤ pulls := List.getElem?_eq_none_iff.mp at_pulls
      rw [List.take_of_length_le whole] at given
      rw [List.take_of_length_le (by omega)]
      exact given
    | some trial =>
      have less : pulls < trials.length := (List.getElem?_eq_some_iff.mp at_pulls).1
      have count : (trials.take pulls).length = pulls := by
        rw [List.length_take]
        omega
      rw [List.take_add_one, at_pulls, Option.toList_some, List.mapIdx_append, ← given, count]
      simp [Deed.given]
  · intro later result before same nothing
    cases later with
    | nil =>
      obtain ⟨last, rfl⟩ := List.cons.inj same
      obtain rfl := Deed.pulled.inj last
      cases at_pulls : trials[pulls]? with
      | none =>
        have whole : trials.length ≤ pulls := List.getElem?_eq_none_iff.mp at_pulls
        rw [given, List.length_mapIdx, List.take_of_length_le whole]
        exact ⟨rfl, rfl⟩
      | some trial =>
        rw [at_pulls] at nothing
        exact absurd rfl (nothing _)
    | cons deed later => exact ends later result before (List.cons.inj same).2 nothing

theorem recites_fed {trials : List (Variant × Load)} {pulls : Nat} {past : List (Deed Probe)}
    (recites : Recites trials m run pulls past) (batch : Batch) :
    Recites trials m run pulls (.fed batch :: past) := by
  refine ⟨recites.given, ?_⟩
  intro later result before same
  cases later with
  | nil => cases same
  | cons deed later => exact recites.ends later result before (List.cons.inj same).2

/-- Whatever is fed, the pulls of a run give out the product in order. -/
theorem recites_asks (thorough : r.plan.earlyExit = false) (pinned : m.pins.concurrencies ≠ [])
    (found : r.repository r.plan.repository m.name = .ok base) {begun : ModelSearch × World}
    (stands : Stands m base r run 0 begun.1 begun.2) (calls : List Ask) :
    let d : Driven ModelSearch Probe := (Driven.start begun).asks calls
    Stands m base r run (calls.count .pull) d.source d.world ∧
      Recites (product m base) m run (calls.count .pull) d.past := by
  -- From the end, as the last call is the newest deed.
  induction calls using List.reverseRecOn with
  | nil =>
    refine ⟨stands, rfl, ?_⟩
    intro later result before same
    cases later <;> cases same
  | append_singleton calls call ih =>
    obtain ⟨stands, recites⟩ := ih
    rw [Driven.asks_append, List.count_append]
    cases call with
    | pull =>
      obtain ⟨result, after⟩ := pull_stands thorough pinned found stands
      refine ⟨after, ?_⟩
      have grown := recites_pulled recites
      rw [← result] at grown
      exact grown
    | feed batch => exact ⟨feed_stands stands batch, recites_fed recites batch⟩

theorem Recites.given_at {trials : List (Variant × Load)} {pulls : Nat} {past : List (Deed Probe)}
    (recites : Recites trials m run pulls past) {i : Nat} {p : Probe}
    (given : (Deed.given past)[i]? = some p) :
    ∃ trial, trials[i]? = some trial ∧ probeAt m run i trial = p := by
  rw [recites.given, List.getElem?_mapIdx, Option.map_eq_some_iff] at given
  obtain ⟨trial, at_i, same⟩ := given
  rw [List.getElem?_take] at at_i
  split at at_i
  · exact ⟨trial, at_i, same⟩
  · cases at_i

/-- Without early exit, a search of a model with a grid and pinned concurrencies ignores what it is
fed. Its pulls give out the trials of the product in order and do not fail, it ends after the last
of them only, and no row is reported to end early; so two runs agree trial by trial, whatever calls
they consist of. -/
theorem pinned_ignores_feedback (r : Resources) (m : Model) (base : Config) (run run' : Uuid)
    (own : r.plan.launch = .own) (thorough : r.plan.earlyExit = false)
    (swept : r.plan.baselineOnly = false) (pinned : m.pins.concurrencies ≠ [])
    (filled : ∃ axis ∈ m.axes, axis.values ≠ [])
    (found : r.repository r.plan.repository m.name = .ok base) (calls calls' : List Ask) :
    let trials := product m base
    let first : Driven ModelSearch Probe := (Driven.start (ofPlan r m false run {})).asks calls
    let second : Driven ModelSearch Probe := (Driven.start (ofPlan r m false run' {})).asks calls'
    Recites trials m run (calls.count .pull) first.past ∧
      Recites trials m run' (calls'.count .pull) second.past ∧
      (∀ (i : Nat) (p p' : Probe), (Deed.given first.past)[i]? = some p →
        (Deed.given second.past)[i]? = some p' →
          p'.variant = p.variant ∧ p'.load = p.load ∧ p'.number = p.number ∧ p.number = i ∧
            trials[i]? = some (p.variant, p.load)) ∧
      first.world.Calm ∧ second.world.Calm := by
  intro trials first second
  obtain ⟨stands, recites⟩ := recites_asks thorough pinned found
    (stands_ofPlan own thorough swept filled) calls
  obtain ⟨stands', recites'⟩ := recites_asks thorough pinned found
    (stands_ofPlan own thorough swept filled) calls'
  refine ⟨recites, recites', ?_, stands.calm, stands'.calm⟩
  intro i p p' given given'
  obtain ⟨trial, at_i, rfl⟩ := recites.given_at given
  obtain ⟨trial', at_i', rfl⟩ := recites'.given_at given'
  obtain rfl : trial' = trial := Option.some.inj (at_i'.symm.trans at_i)
  exact ⟨rfl, rfl, rfl, rfl, at_i⟩

def pinnedModel : Model where
  name := "m"
  axes := [⟨"max_batch_size", [.word 4, .word 8]⟩, ⟨"sequence_batching", []⟩]
  pins := { concurrencies := [16, 2] }

def pinnedModelOnly : Resources where
  plan := {}
  repository := Repository.ofConfigs [("m", [("backend", .text "onnx")])]

/-- Results that would end every row early, some of them twice or out of turn. -/
def discouraging : List Ask :=
  [.feed [none], .pull, .feed [], .pull, .feed [none], .feed [], .pull, .pull, .feed [none], .pull]

theorem pinned_ignores_feedback_discouraging :
    pinnedModelOnly.plan.launch = .own ∧ pinnedModelOnly.plan.earlyExit = false ∧
    pinnedModelOnly.plan.baselineOnly = false ∧ pinnedModel.pins.concurrencies ≠ [] ∧
    (∃ axis ∈ pinnedModel.axes, axis.values ≠ []) ∧
    pinnedModelOnly.repository "models" "m" = .ok [("backend", .text "onnx")] ∧
    (product pinnedModel [("backend", .text "onnx")]).map (fun x => (x.1.name, x.2.concurrency)) =
      [("m_config_0", 16), ("m_config_0", 2), ("m_config_1", 16), ("m_config_1", 2)] ∧
    let trials := product pinnedModel [("backend", .text "onnx")]
    let first : Driven ModelSearch Probe :=
      (Driven.start (ofPlan pinnedModelOnly pinnedModel false ⟨0⟩ {})).asks discouraging
    let second : Driven ModelSearch Probe :=
      (Driven.start (ofPlan pinnedModelOnly pinnedModel false ⟨1⟩ {})).asks [.pull, .pull]
    Recites trials pinnedModel ⟨0⟩ 5 first.past ∧ Recites trials pinnedModel ⟨1⟩ 2 second.past ∧
    (Deed.given first.past).length = 4 ∧ first.world.Calm := by
  have filled : ∃ axis ∈ pinnedModel.axes, axis.values ≠ [] :=
    ⟨_, List.mem_cons_self, List.cons_ne_nil _ _⟩
  have pinned : pinnedModel.pins.concurrencies ≠ [] := List.cons_ne_nil _ _
  have found : pinnedModelOnly.repository "models" "m" = .ok [("backend", .text "onnx")] := by
    decide +kernel
  refine ⟨rfl, rfl, rfl, pinned, filled, found, by decide +kernel, ?_⟩
  obtain ⟨first, second, -, calm, -⟩ := pinned_ignores_feedback pinnedModelOnly pinnedModel _ ⟨0⟩
    ⟨1⟩ rfl rfl rfl pinned filled found discouraging [.pull, .pull]
  exact ⟨first, second, by decide +kernel, calm⟩

end Search
end ServingSweep
