import ServingSweep.Control.Script
import ServingSweep.Proofs.Sweep.Asks
import ServingSweep.Proofs.Sweep.Offers
import ServingSweep.Proofs.Sweep.Turns
import ServingSweep.Proofs.Sweep.Worlds

/-!
Pulls of a server sweep that fail. To a sweep that walks such a pull is a stutter: nothing moves but
that the sweep has begun, so by `tracks_visits` the run is that of a sweep that never fails. A sweep
that walks nothing is over after its first failure.
-/

namespace ServingSweep
open Source

/-- A call, with what the repository holds and what the world is at the time. -/
structure Occasion where
  ask : Ask
  repository : Repository
  world : World

/-- The same call where the repository holds the base, in a world with the same names. -/
structure Occasion.Eased (r : Resources) (m : Model) (base : Config) (o o' : Occasion) : Prop where
  ask : o'.ask = o.ask
  holds : o'.repository r.plan.repository m.name = .ok base
  world : o.world.Like m.name o'.world

def Source.Deed.isFault {α : Type} : Deed α → Bool
  | .pulled (.error _) => true
  | _ => false

namespace ServerSweep

def visit (d : Driven ServerSweep Variant) (o : Occasion) : Driven ServerSweep Variant :=
  (⟨d.source.stocked o.repository, o.world, d.past⟩ : Driven ServerSweep Variant).ask o.ask

def visits (d : Driven ServerSweep Variant) (os : List Occasion) : Driven ServerSweep Variant :=
  os.foldl visit d

def FailsAt (d : Driven ServerSweep Variant) (o : Occasion) : Prop :=
  ∃ fault, (visit d o).past = .pulled (.error fault) :: d.past

theorem failsAt_iff {d : Driven ServerSweep Variant} {o : Occasion} :
    FailsAt d o ↔ (visit d o).past.head?.any Deed.isFault = true := by
  obtain ⟨ask, repository, w⟩ := o
  cases ask with
  | feed batch => exact iff_of_false (fun failed => nomatch failed.choose_spec) Bool.false_ne_true
  | pull =>
    let result := ((d.source.stocked repository).pull w).result
    change (∃ fault, Deed.pulled result :: d.past = .pulled (.error fault) :: d.past) ↔
      (Deed.pulled result).isFault = true
    cases result with
    | error fault => exact iff_of_true ⟨fault, rfl⟩ rfl
    | ok given => exact iff_of_false (fun failed => nomatch failed.choose_spec) Bool.false_ne_true

instance (d : Driven ServerSweep Variant) (o : Occasion) : Decidable (FailsAt d o) :=
  decidable_of_iff _ failsAt_iff.symm

end ServerSweep

/-- Stepping past an item does not depend on whether the course has begun. -/
theorem Course.start_advance {α : Type} (c : Course α) (w : World) :
    (c.advance w).1.start = (c.start.advance w).1 := by
  rcases c with ⟨owner, rows, earlyExit, progress, ⟨started, outstanding, fed, violations⟩, results⟩
  cases outstanding with
  | false => rfl
  | true => cases rows <;> rfl

/-- Where nothing is outstanding there is nothing to step past. -/
theorem Course.advance_settled {α : Type} {c : Course α} (settled : c.turn.outstanding = false)
    (w : World) : c.advance w = (c, w) := by
  rcases c with ⟨owner, rows, earlyExit, progress, ⟨started, outstanding, fed, violations⟩, results⟩
  obtain rfl : outstanding = false := settled
  rfl

namespace ServerSweep

inductive Adaptive (s : ServerSweep) (w : World) : Pulled ServerSweep Variant → Prop where
  | ended {last : ServerSweep} (finished : (s.advance w).1.course.current? = none)
      (left : last = (s.advance w).1 ∨ last = (s.advance w).1.start) :
      Adaptive s w ⟨.ok none, last, (s.advance w).2⟩
  | failed {o : Overrides} {fault : Fault} {later : World}
      (current : (s.advance w).1.course.current? = some o) (unknown : s.base = none)
      (refused : ∃ w, (s.resources.base s.model.name w).1 = .error fault)
      (names : later.names = w.names) :
      Adaptive s w ⟨.error fault, (s.advance w).1.start, later⟩
  | gave {o : Overrides} {base : Config} {later : World}
      (current : (s.advance w).1.course.current? = some o)
      (before : s.base = none ∧ (∃ w, (s.resources.base s.model.name w).1 = .ok base) ∨
        s.base = some base ∧ later = (s.advance w).2)
      (names : later.names = w.names) :
      Adaptive s w ⟨.ok (some (Variant.derive s.model o base later).1),
        { (s.advance w).1.start with base := some base }.yielded,
        (Variant.derive s.model o base later).2⟩

theorem adaptive_pull {s : ServerSweep} (adaptive : s.strategy.isAdaptive = true) (w : World) :
    Adaptive s w (s.pull w) := by
  have names : (s.advance w).2.names = w.names := Course.names_advance s.course w
  rcases pull_adaptive adaptive w with ⟨finished, last, left, same⟩ | ⟨o, current, same⟩
  · rw [same]
    exact .ended finished left
  · rw [same]
    cases known : s.base with
    | some base =>
      have kept : { (s.advance w).1.start with base := some base } = (s.advance w).1.start := by
        rw [← known]
        rfl
      rw [offer_known (s := (s.advance w).1.start) known, ← kept]
      exact .gave current (.inr ⟨known, rfl⟩) names
    | none =>
      have quiet := (s.resources.asked_base s.model.name (s.advance w).2).names
      rcases offer_sought (s := (s.advance w).1.start) known o (s.advance w).2 with
        ⟨fault, later, refused, failed⟩ | ⟨base, later, found, gave⟩
      · rw [show s.resources.base s.model.name (s.advance w).2 = _ from refused] at quiet
        rw [failed]
        exact .failed current known ⟨_, congrArg Prod.fst refused⟩ (quiet.trans names)
      · rw [show s.resources.base s.model.name (s.advance w).2 = _ from found] at quiet
        rw [gave]
        exact .gave current (.inl ⟨known, _, congrArg Prod.fst found⟩) (quiet.trans names)

/-! ### Runs of a sweep that walks -/

structure Waits (m : Model) (d : Driven ServerSweep Variant) : Prop where
  model : d.source.model = m
  adaptive : d.source.strategy.isAdaptive = true
  unknown : d.source.base = none →
    d.source.course.turn.outstanding = false ∧ Deed.given d.past = []

variable {m : Model} {d d' : Driven ServerSweep Variant} {o o' : Occasion}

theorem waits_visit (waits : Waits m d) (o : Occasion) :
    Waits m (visit d o) ∧
      ∀ base, d.source.base = some base → (visit d o).source.base = some base := by
  obtain ⟨ask, repository, w⟩ := o
  obtain ⟨model, adaptive, unknown⟩ := waits
  cases ask with
  | feed batch => exact ⟨⟨model, adaptive, unknown⟩, fun _ known => known⟩
  | pull =>
    have pulled := adaptive_pull (s := d.source.stocked repository) adaptive w
    have settled := Course.outstanding_advance d.source.course w
    change Waits m ⟨((d.source.stocked repository).pull w).source, _,
      .pulled ((d.source.stocked repository).pull w).result :: d.past⟩ ∧
      ∀ base, _ → ((d.source.stocked repository).pull w).source.base = some base
    revert pulled
    generalize (d.source.stocked repository).pull w = p
    intro pulled
    cases pulled with
    | ended finished left =>
      rcases left with rfl | rfl
      · exact ⟨⟨model, adaptive, fun none => ⟨settled, (unknown none).2⟩⟩, fun _ known => known⟩
      · exact ⟨⟨model, adaptive, fun none => ⟨settled, (unknown none).2⟩⟩, fun _ known => known⟩
    | failed current none refused names =>
      exact ⟨⟨model, adaptive, fun none => ⟨settled, (unknown none).2⟩⟩, fun _ known => known⟩
    | gave current before names =>
      refine ⟨⟨model, adaptive, fun impossible => nomatch impossible⟩, ?_⟩
      intro base known
      rcases before with ⟨none, -⟩ | ⟨same, -⟩
      · cases none.symm.trans known
      · exact same.symm.trans known

theorem base_visits (waits : Waits m d) {base : Config} (known : d.source.base = some base)
    (os : List Occasion) : (visits d os).source.base = some base := by
  induction os generalizing d with
  | nil => exact known
  | cons o os ih =>
    obtain ⟨after, kept⟩ := waits_visit waits o
    exact ih after (kept base known)

theorem waits_visits (waits : Waits m d) (os : List Occasion) : Waits m (visits d os) := by
  induction os generalizing d with
  | nil => exact waits
  | cons o os ih => exact ih (waits_visit waits o).1

/-- A pull that fails leaves everything but that the sweep has begun. -/
theorem visit_failed (waits : Waits m d) (fails : FailsAt d o) :
    Deed.given d.past = [] ∧ (visit d o).source = (d.source.stocked o.repository).start ∧
      (visit d o).world.names = o.world.names := by
  obtain ⟨ask, repository, w⟩ := o
  obtain ⟨fault, failed⟩ := fails
  cases ask with
  | feed batch => cases (List.cons.inj failed).1
  | pull =>
    have pulled := adaptive_pull (s := d.source.stocked repository) waits.adaptive w
    have result : ((d.source.stocked repository).pull w).result = .error fault :=
      Deed.pulled.inj (List.cons.inj failed).1
    change _ ∧ ((d.source.stocked repository).pull w).source = _ ∧
      ((d.source.stocked repository).pull w).world.names = w.names
    revert result pulled
    generalize (d.source.stocked repository).pull w = p
    intro pulled result
    cases pulled with
    | ended finished left => cases result
    | gave current before names => cases result
    | failed current none refused names =>
      obtain ⟨settled, nothing⟩ := waits.unknown none
      have still : (d.source.stocked repository).advance w = (d.source.stocked repository, w) := by
        unfold advance
        rw [Course.advance_settled (c := (d.source.stocked repository).course) settled]
      rw [still]
      exact ⟨nothing, rfl, names⟩

/-! ### The same run without failures -/

/-- Two sweeps at the same place give out the same, if the one does not fail and the other one finds
the same base in its repository. -/
theorem pull_alongside {s s' : ServerSweep} {w w' : World} {base : Config}
    (adaptive : s.strategy.isAdaptive = true) (adaptive' : s'.strategy.isAdaptive = true)
    (model : s'.model = s.model) (course : s'.course.start = s.course.start)
    (kept : s'.base = none ∨ s'.base = some base)
    (holds : s'.resources.repository s'.resources.plan.repository s.model.name = .ok base)
    (like : w.Like s.model.name w') (passes : ∀ fault, (s.pull w).result ≠ .error fault)
    (found : (s.pull w).source.base = none ∨ (s.pull w).source.base = some base) :
    (s'.pull w').result = (s.pull w).result ∧
      (s'.pull w').source.course.start = (s.pull w).source.course.start ∧
      (s'.pull w').source.resources = s'.resources ∧
      ((s'.pull w').source.base = none ∨ (s'.pull w').source.base = some base) := by
  have stepped : (s'.advance w').1.course.start = (s.advance w).1.course.start := by
    change (s'.course.advance w').1.start = (s.course.advance w).1.start
    rw [Course.start_advance, Course.start_advance, course, Course.advance_elsewhere _ w' w]
  have same : (s'.advance w').1.course.current? = (s.advance w).1.course.current? := by
    change (s'.advance w').1.course.start.current? = (s.advance w).1.course.start.current?
    rw [stepped]
  have sought (later : World) : (s'.resources.base s'.model.name later).1 = .ok base := by
    simp only [Resources.base, model, holds]
  have pulled := adaptive_pull adaptive w
  have pulled' := adaptive_pull adaptive' w'
  revert pulled pulled' passes found
  generalize s.pull w = p
  generalize s'.pull w' = p'
  intro passes found pulled pulled'
  -- Both courses stand at the same item, so the cases of the two pulls go together.
  cases pulled with
  | failed current none refused names => exact absurd rfl (passes _)
  | @ended last finished left =>
    have place : last.course.start = (s.advance w).1.course.start := by
      rcases left with rfl | rfl <;> rfl
    cases pulled' with
    | ended finished' left' =>
      rcases left' with rfl | rfl
      · exact ⟨rfl, stepped.trans place.symm, rfl, kept⟩
      · exact ⟨rfl, stepped.trans place.symm, rfl, kept⟩
    | failed current' none' refused' names' => cases finished.symm.trans (same.symm.trans current')
    | gave current' before' names' => cases finished.symm.trans (same.symm.trans current')
  | @gave o own later current before names =>
    obtain rfl : own = base := (Option.some.inj (found.resolve_left (Option.some_ne_none own)))
    cases pulled' with
    | ended finished' left' => cases current.symm.trans (same.symm.trans finished')
    | failed current' none' refused' names' =>
      obtain ⟨elsewhere, refused'⟩ := refused'
      cases (sought elsewhere).symm.trans refused'
    | @gave o' own' later' current' before' names' =>
      obtain rfl : o' = o := Option.some.inj (current'.symm.trans (same.trans current))
      obtain rfl : own' = own := by
        rcases before' with ⟨-, elsewhere, found'⟩ | ⟨known', -⟩
        · exact Except.ok.inj (found'.symm.trans (sought elsewhere))
        · exact Option.some.inj (known'.symm.trans
            (kept.resolve_left (known' ▸ Option.some_ne_none own')))
      have still : later.Like s.model.name later' := by
        unfold World.Like
        rw [names, names']
        exact like
      refine ⟨?_, ?_, rfl, .inr rfl⟩
      · rw [model, (Variant.derive_like still o' own').1]
      · change (s'.advance w').1.course.start.yielded = (s.advance w).1.course.start.yielded
        rw [stepped]

/-- The calls of a run at which it does not fail, made of a sweep whose repository holds the
base. -/
inductive Spares (r : Resources) (m : Model) (base : Config) :
    Driven ServerSweep Variant → List Occasion → List Occasion → Prop where
  | nil (d : Driven ServerSweep Variant) : Spares r m base d [] []
  | failed {d : Driven ServerSweep Variant} {o : Occasion} {os others : List Occasion}
      (fails : FailsAt d o) (rest : Spares r m base (visit d o) os others) :
      Spares r m base d (o :: os) others
  | passed {d : Driven ServerSweep Variant} {o o' : Occasion} {os others : List Occasion}
      (passes : ¬ FailsAt d o) (eased : o.Eased r m base o')
      (rest : Spares r m base (visit d o) os others) :
      Spares r m base d (o :: os) (o' :: others)

/-- Two runs stand at the same place, the second one without the failures of the first. -/
structure Tracks (r : Resources) (m : Model) (base : Config) (d d' : Driven ServerSweep Variant) :
    Prop where
  waits : Waits m d
  smooth : Waits m d'
  plan : d'.source.resources.plan = r.plan
  course : d'.source.course.start = d.source.course.start
  past : d'.past = d.past.filter (fun deed => !deed.isFault)
  base : d'.source.base = none ∨ d'.source.base = some base

variable {r : Resources} {base : Config}

theorem tracks_failed (tracks : Tracks r m base d d') (fails : FailsAt d o) :
    Tracks r m base (visit d o) d' := by
  obtain ⟨waits, smooth, plan, course, past, kept⟩ := tracks
  obtain ⟨-, source, -⟩ := visit_failed waits fails
  obtain ⟨fault, failed⟩ := fails
  refine ⟨(waits_visit waits o).1, smooth, plan, ?_, ?_, kept⟩
  · rw [source]
    exact course
  · rw [failed, past]
    rfl

theorem tracks_passed (tracks : Tracks r m base d d') (passes : ¬ FailsAt d o)
    (eased : o.Eased r m base o')
    (found : (visit d o).source.base = none ∨ (visit d o).source.base = some base) :
    Tracks r m base (visit d o) (visit d' o') := by
  obtain ⟨waits, smooth, plan, course, past, kept⟩ := tracks
  obtain ⟨ask, repository, w⟩ := o
  obtain ⟨ask', repository', w'⟩ := o'
  obtain ⟨same, holds, like⟩ := eased
  obtain rfl : ask' = ask := same
  change repository' r.plan.repository m.name = .ok base at holds
  change w.Like m.name w' at like
  have after := (waits_visit waits ⟨ask', repository, w⟩).1
  have after' := (waits_visit smooth ⟨ask', repository', w'⟩).1
  cases ask' with
  | feed batch =>
    refine ⟨after, after', plan, ?_, congrArg (Deed.fed batch :: ·) past, kept⟩
    exact congrArg (fun c : Course Overrides => (c.feed batch w).1) course
  | pull =>
    let s := d.source.stocked repository
    let s' := d'.source.stocked repository'
    have holds : s'.resources.repository s'.resources.plan.repository s.model.name = .ok base := by
      change repository' d'.source.resources.plan.repository d.source.model.name = .ok base
      rw [plan, waits.model]
      exact holds
    have passes : ∀ fault, (s.pull w).result ≠ .error fault := by
      intro fault failed
      exact passes ⟨fault, congrArg (Deed.pulled · :: d.past) failed⟩
    have like : w.Like s.model.name w' := by
      rw [show s.model = m from waits.model]
      exact like
    obtain ⟨result, place, resources, kept⟩ := @pull_alongside s s' w w' base waits.adaptive
      smooth.adaptive (smooth.model.trans waits.model.symm) course kept holds like passes found
    refine ⟨after, after', (congrArg Resources.plan resources).trans plan, place, ?_, kept⟩
    change .pulled (s'.pull w').result :: d'.past =
      (Deed.pulled (s.pull w).result :: d.past).filter _
    rw [result, past, List.filter_cons_of_pos]
    cases outcome : (s.pull w).result with
    | error fault => exact absurd outcome (passes fault)
    | ok given => rfl

/-- The run is that of a sweep which never fails, but for the pulls that failed. -/
theorem tracks_visits {os others : List Occasion} (spares : Spares r m base d os others)
    (tracks : Tracks r m base d d')
    (found : (visits d os).source.base = none ∨ (visits d os).source.base = some base) :
    Tracks r m base (visits d os) (visits d' others) := by
  have between {d : Driven ServerSweep Variant} {os : List Occasion} (waits : Waits m d)
      (found : (visits d os).source.base = none ∨ (visits d os).source.base = some base) :
      d.source.base = none ∨ d.source.base = some base := by
    cases known : d.source.base with
    | none => exact .inl rfl
    | some own =>
      rw [base_visits waits known os] at found
      exact found
  induction spares generalizing d' with
  | nil d => exact tracks
  | failed fails rest ih => exact ih (tracks_failed tracks fails) found
  | @passed d o o' os others passes eased rest ih =>
    have next := between (waits_visit tracks.waits o).1 found
    exact ih (tracks_passed tracks passes eased next) found

/-- A sweep that knows its base asks nobody for it. -/
theorem pull_known {s : ServerSweep} (adaptive : s.strategy.isAdaptive = true) {base : Config}
    (known : s.base = some base) (repository : Repository) (w : World) :
    ((s.stocked repository).pull w).result = (s.pull w).result ∧
      ((s.stocked repository).pull w).world = (s.pull w).world ∧
      (s.pull w).world.calls = w.calls := by
  have calls : (s.advance w).2.calls = w.calls := Course.calls_advance s.course w
  rcases pull_adaptive adaptive w with ⟨finished, last, -, same⟩ | ⟨o, current, same⟩
  · rcases pull_adaptive (s := s.stocked repository) adaptive w with
      ⟨-, last', -, same'⟩ | ⟨o, current', -⟩
    · rw [same, same']
      exact ⟨rfl, rfl, calls⟩
    · cases finished.symm.trans current'
  · rcases pull_adaptive (s := s.stocked repository) adaptive w with
      ⟨finished, -⟩ | ⟨o', current', same'⟩
    · cases finished.symm.trans current
    · obtain rfl : o' = o := Option.some.inj (current'.symm.trans current)
      rw [same, same', offer_known (s := (s.advance w).1.start) known,
        offer_known (s := ((s.stocked repository).advance w).1.start) known]
      exact ⟨rfl, rfl, calls⟩

/-! ### Sweeps that walk nothing -/

structure Rested (s : ServerSweep) : Prop where
  fixed : s.strategy.isAdaptive = false
  started : s.course.turn.started = true
  settled : s.course.turn.outstanding = false

theorem pull_rested {s : ServerSweep} (rested : Rested s) (w : World) :
    s.pull w = ⟨.ok none, s, w⟩ := by
  have still : s.advance w = (s, w) := by
    unfold advance
    rw [Course.advance_settled rested.settled]
  have done : s.isDone = true := by simp [isDone, rested.started, rested.fixed]
  simp only [pull, still, done, if_true]

theorem rested_visits (rested : Rested d.source) (os : List Occasion) :
    Rested (visits d os).source := by
  induction os generalizing d with
  | nil => exact rested
  | cons o os ih =>
    obtain ⟨ask, repository, w⟩ := o
    refine ih ?_
    cases ask with
    | feed batch => exact ⟨rested.fixed, rested.started, rested.settled⟩
    | pull =>
      have same : Rested (d.source.stocked repository) :=
        ⟨rested.fixed, rested.started, rested.settled⟩
      change Rested ((d.source.stocked repository).pull w).source
      rw [pull_rested same w]
      exact same

/-- A failure is the end of a sweep that walks nothing. -/
theorem rested_of_failed (fixed : d.source.strategy.isAdaptive = false) (fails : FailsAt d o) :
    Rested (visit d o).source := by
  obtain ⟨ask, repository, w⟩ := o
  obtain ⟨fault, failed⟩ := fails
  cases ask with
  | feed batch => cases (List.cons.inj failed).1
  | pull =>
    let s := d.source.stocked repository
    have result : (s.pull w).result = .error fault := Deed.pulled.inj (List.cons.inj failed).1
    have settled : (s.advance w).1.course.turn.outstanding = false :=
      Course.outstanding_advance s.course w
    change Rested (s.pull w).source
    rcases outcome_pull s w with ⟨-, ended⟩ | ⟨outcome, -⟩
    · cases result.symm.trans ended
    · revert outcome result
      generalize s.pull w = p
      intro result outcome
      cases outcome with
      | withheld _ later nothing => exact ⟨fixed, rfl, settled⟩
      | given base variant later walked => cases result

theorem strategy_visits (d : Driven ServerSweep Variant) (os : List Occasion) :
    (visits d os).source.strategy = d.source.strategy := by
  induction os generalizing d with
  | nil => rfl
  | cons o os ih =>
    obtain ⟨ask, repository, w⟩ := o
    refine (ih _).trans ?_
    cases ask with
    | feed batch => rfl
    | pull => exact (continues_pull (d.source.stocked repository) w).strategy

/-! ### Both kinds of sweeps -/

/-- A pull that fails takes nothing from a sweep that walks: nothing was given out before, nothing
moves, and but for such pulls the run is that of a sweep which never fails, whose repository holds
the same base; once something was given out, neither the repository nor the server is asked again. A
sweep that walks nothing is over after such a pull. -/
theorem failures_take_nothing (r : Resources) (m : Model) (strategy : Strategy) (exit : Bool)
    (w : World) (os : List Occasion) :
    let start : Driven ServerSweep Variant := ⟨ServerSweep.of r m strategy exit, w, []⟩
    let run := visits start os
    (strategy.isAdaptive = true →
      (∀ o, FailsAt run o → Deed.given run.past = [] ∧
        (visit run o).source = (run.source.stocked o.repository).start ∧
        (visit run o).world.names = o.world.names) ∧
      (∀ base others, run.source.base = none ∨ run.source.base = some base →
        Spares r m base start os others →
        (visits start others).past = run.past.filter (fun deed => !deed.isFault) ∧
          (visits start others).source.course.start = run.source.course.start) ∧
      (Deed.given run.past ≠ [] → ∀ repository later,
        ((run.source.stocked repository).pull later).result = (run.source.pull later).result ∧
          ((run.source.stocked repository).pull later).world = (run.source.pull later).world ∧
          (run.source.pull later).world.calls = later.calls)) ∧
    (strategy.isAdaptive = false → ∀ o, FailsAt run o →
      Source.phase (visit run o).source = .done ∧
        ∀ more repository later,
          let s := (visits (visit run o) more).source.stocked repository
          s.pull later = ⟨.ok none, s, later⟩) := by
  intro start run
  refine ⟨?_, ?_⟩
  · intro adaptive
    have begins : Waits m start := ⟨rfl, adaptive, fun _ => ⟨rfl, rfl⟩⟩
    have waits := waits_visits begins os
    refine ⟨fun o fails => visit_failed waits fails, ?_, ?_⟩
    · intro base others found spares
      have tracks := tracks_visits spares ⟨begins, begins, rfl, rfl, rfl, .inl rfl⟩ found
      exact ⟨tracks.past, tracks.course⟩
    · intro given repository later
      cases known : run.source.base with
      | none => exact absurd (waits.unknown known).2 given
      | some base => exact pull_known waits.adaptive known repository later
  · intro fixed o fails
    have still : run.source.strategy.isAdaptive = false := by
      rw [strategy_visits start os]
      exact fixed
    have rested := rested_of_failed still fails
    refine ⟨?_, ?_⟩
    · have done : (visit run o).source.isDone = true := by
        simp [isDone, rested.started, rested.fixed]
      change (if !(visit run o).source.course.turn.started then Phase.notStarted
        else if (visit run o).source.isDone then .done else .running) = .done
      rw [rested.started, done]
      rfl
    · intro more repository later
      have after := rested_visits rested more
      have idle : Rested ((visits (visit run o) more).source.stocked repository) :=
        ⟨after.fixed, after.started, after.settled⟩
      exact pull_rested idle later

def reluctant : Resources where
  plan := { batchSize := ⟨1, 2⟩, instances := ⟨1, 1⟩ }
  repository := Repository.ofConfigs []
  client := some (Script.client { refuseLoad := [true], config := [("backend", .text "onnx")] })

def ladder : Strategy := .ladder (Ladder.ofPlan reluctant.plan false)

/-- Fed out of turn, then refused by a broken repository and by the server; then two variants. -/
def refusedTwice : List Occasion :=
  let empty := Repository.ofConfigs []
  let named : World := { names := ⟨[("m", ⟨[Ladder.overrides false 1 1]⟩)]⟩ }
  [⟨.feed [none], empty, {}⟩, ⟨.pull, fun _ model => .error (.invalid model "truncated"), {}⟩,
    ⟨.pull, empty, {}⟩, ⟨.pull, empty, { calls := [.load "m"] }⟩,
    ⟨.feed [some ⟨[("perf_throughput", ⟨0x3ff0000000000000⟩)]⟩], empty, named⟩,
    ⟨.pull, empty, named⟩]

def granted : List Occasion :=
  let full := Repository.ofConfigs [("m", [("backend", .text "onnx")])]
  let named : World := { names := ⟨[("m", ⟨[Ladder.overrides false 1 1]⟩)]⟩ }
  [⟨.feed [none], full, {}⟩, ⟨.pull, full, {}⟩,
    ⟨.feed [some ⟨[("perf_throughput", ⟨0x3ff0000000000000⟩)]⟩], full, named⟩,
    ⟨.pull, full, named⟩]

theorem failures_take_nothing_refusedTwice :
    let start : Driven ServerSweep Variant :=
      ⟨ServerSweep.of reluctant { name := "m" } ladder true, {}, []⟩
    let fixed : Driven ServerSweep Variant :=
      ⟨ServerSweep.of reluctant { name := "m" } .baseline true, {}, []⟩
    let first : Occasion := ⟨.pull, Repository.ofConfigs [], {}⟩
    ladder.isAdaptive = true ∧ FailsAt start first ∧
    (visit start first).source = (start.source.stocked first.repository).start ∧
    Spares reluctant { name := "m" } [("backend", .text "onnx")] start refusedTwice granted ∧
    (visits start refusedTwice).past.countP Deed.isFault = 2 ∧
    (Deed.given (visits start refusedTwice).past).map (·.name) = ["m_config_0", "m_config_1"] ∧
    (visits start granted).past =
      (visits start refusedTwice).past.filter (fun deed => !deed.isFault) ∧
    FailsAt fixed first ∧ Source.phase (visit fixed first).source = .done := by
  intro start fixed first
  have refused : FailsAt start first := by decide +kernel
  have last : FailsAt fixed first := by decide +kernel
  have spares : Spares reluctant { name := "m" } [("backend", .text "onnx")] start refusedTwice
      granted := by
    refine .passed (by decide +kernel) ⟨rfl, by decide +kernel, rfl⟩ ?_
    refine .failed (by decide +kernel) (.failed (by decide +kernel) ?_)
    refine .passed (by decide +kernel) ⟨rfl, by decide +kernel, rfl⟩ ?_
    refine .passed (by decide +kernel) ⟨rfl, by decide +kernel, rfl⟩ ?_
    exact .passed (by decide +kernel) ⟨rfl, by decide +kernel, rfl⟩ (.nil _)
  have found : (visits start refusedTwice).source.base = some [("backend", .text "onnx")] := by
    decide +kernel
  have once := (failures_take_nothing reluctant { name := "m" } ladder true {} []).1 rfl
  have twice := (failures_take_nothing reluctant { name := "m" } ladder true {} refusedTwice).1 rfl
  have final := (failures_take_nothing reluctant { name := "m" } .baseline true {} []).2 rfl
  -- With `start` in place nothing has to be evaluated to see that the runs are the same.
  subst start
  exact ⟨rfl, refused, (once.1 first refused).2.1, spares, by decide +kernel, by decide +kernel,
    (twice.2.1 _ granted (.inr found) spares).1, last, (final first last).1⟩

end ServerSweep
end ServingSweep
