import ServingSweep.LoadSweep
import ServingSweep.Proofs.Sweep.Walk
import ServingSweep.ServerSweep

/-!
Sweeps under calls in any order. All that a sweep does with its course is `Pulls` and feeds, and
`judgedOnLast_of_follows` says what an item is judged on: the results fed last since it was given
out, or, when there are none, those left over from before.
-/

namespace ServingSweep
open Source

/-! ### Courses under calls -/

namespace Course
variable {α β : Type}

/-- A pull of a sweep as its course sees it: the outstanding item is stepped past, and the current
one is given out unless the sweep is over or its pull fails. -/
inductive Pulls (c : Course β) : Except Fault (Option α) → Course β → Prop where
  | ended (w : World) : Pulls c (.ok none) (c.advance w).1
  | withheld {result : Except Fault (Option α)} (w : World)
      (nothing : ∀ a, result ≠ .ok (some a)) : Pulls c result (c.advance w).1.start
  | gave (a : α) (w : World) (there : (c.advance w).1.current?.isSome = true) :
      Pulls c (.ok (some a)) (c.advance w).1.yielded

inductive Ran (start : Course β) : List (Deed α) → Course β → Prop where
  | start : Ran start [] start
  | pull {past : List (Deed α)} {result : Except Fault (Option α)} {c c' : Course β}
      (before : Ran start past c) (pulls : Pulls c result c') :
      Ran start (.pulled result :: past) c'
  | feed {past : List (Deed α)} {c : Course β} (before : Ran start past c) (batch : Batch)
      (w : World) : Ran start (.fed batch :: past) (c.feed batch w).1

theorem pulls_pull (c : Course β) (w : World) : Pulls c (c.pull w).result (c.pull w).source := by
  rcases pull_cases c w with ⟨-, same⟩ | ⟨b, given, same⟩
  · rw [same]
    exact .withheld w (fun _ impossible => nomatch impossible)
  · rw [same]
    exact .gave b w (by rw [given]; rfl)

end Course

/-- A sweep does with its course what a course does under calls, as long as it is `Good`. -/
structure Follows {σ α β : Type} [Source σ α] (course : σ → Course β) (Good : σ → Prop) : Prop where
  pulled : ∀ s w, Good s → Good (Source.pull s w).source ∧
    Course.Pulls (course s) (Source.pull s w).result (course (Source.pull s w).source)
  fed : ∀ s batch w, Good s → Good (Source.feed s batch w).1 ∧
    course (Source.feed s batch w).1 = ((course s).feed batch w).1

theorem Follows.ran {σ α β : Type} [Source σ α] {course : σ → Course β} {Good : σ → Prop}
    (follows : Follows course Good) {start s : σ} {past : List (Deed α)} (good : Good start)
    (reached : After start past s) : Good s ∧ Course.Ran (course start) past (course s) := by
  induction reached with
  | start => exact ⟨good, .start⟩
  | @pull past s _ w ih =>
    obtain ⟨kept, pulls⟩ := follows.pulled s w ih.1
    exact ⟨kept, ih.2.pull pulls⟩
  | @feed past s _ batch w ih =>
    obtain ⟨kept, same⟩ := follows.fed s batch w ih.1
    rw [same]
    exact ⟨kept, ih.2.feed batch w⟩

theorem Course.follows {α : Type} :
    Follows (fun c : Course α => c) (fun _ : Course α => True) :=
  ⟨fun c w _ => ⟨trivial, pulls_pull c w⟩, fun _ _ _ _ => ⟨trivial, rfl⟩⟩

theorem Rows.current?_isSome {β : Type} {rows : Rows β} (walked : 0 < rows.left) :
    rows.current?.isSome = true := by
  cases rows with
  | nil => cases walked
  | cons row rest => rfl

namespace ServerSweep

theorem pulls_pull {s : ServerSweep} (adaptive : s.strategy.isAdaptive = true) (w : World) :
    (s.pull w).source.strategy = s.strategy ∧
      Course.Pulls s.course (s.pull w).result (s.pull w).source.course := by
  rcases outcome_pull s w with ⟨source, result⟩ | ⟨outcome, -⟩
  · rw [source, result]
    exact ⟨rfl, .ended w⟩
  · revert outcome
    generalize s.pull w = pulled
    intro outcome
    cases outcome with
    | withheld result later nothing => exact ⟨rfl, .withheld w nothing⟩
    | given base variant later walked =>
      exact ⟨rfl, .gave variant w (Rows.current?_isSome (walked adaptive))⟩

theorem follows : Follows ServerSweep.course (fun s => s.strategy.isAdaptive = true) := by
  refine ⟨?_, fun _ _ _ adaptive => ⟨adaptive, rfl⟩⟩
  intro s w adaptive
  obtain ⟨same, pulls⟩ := pulls_pull adaptive w
  exact ⟨(congrArg Strategy.isAdaptive same).trans adaptive, pulls⟩

end ServerSweep

/-! ### What is kept -/

namespace Source.Deed
variable {α : Type}

/-- An item was given out and no pull came since; the last call comes first. -/
def outstanding : List (Deed α) → Bool
  | [] => false
  | .fed _ :: past => outstanding past
  | .pulled (.ok (some _)) :: _ => true
  | .pulled _ :: _ => false

/-- The results at hand: those fed last, until a pull steps past an item. -/
def kept : List (Deed α) → Batch
  | [] => []
  | .fed batch :: _ => batch
  | .pulled _ :: past => if outstanding past then [] else kept past

def gives : Deed α → Bool
  | .pulled (.ok (some _)) => true
  | _ => false

theorem result_cases {result : Except Fault (Option α)} (nothing : ∀ a, result ≠ .ok (some a)) :
    result = .ok none ∨ ∃ fault, result = .error fault := by
  rcases result with fault | _ | a
  · exact .inr ⟨fault, rfl⟩
  · exact .inl rfl
  · exact absurd rfl (nothing a)

theorem gives_eq_false {result : Except Fault (Option α)} (nothing : ∀ a, result ≠ .ok (some a)) :
    (pulled result).gives = false := by
  rcases result_cases nothing with rfl | ⟨fault, rfl⟩ <;> rfl

theorem outstanding_pulled (result : Except Fault (Option α)) (past : List (Deed α)) :
    outstanding (.pulled result :: past) = (pulled result).gives := by
  rcases result with fault | _ | a <;> rfl

theorem outstanding_fed (since : List Batch) (past : List (Deed α)) :
    outstanding (since.map .fed ++ past) = outstanding past := by
  induction since with
  | nil => rfl
  | cons batch since ih => exact ih

end Source.Deed

namespace Course
variable {α β : Type}

theorem results_advance (c : Course β) (w : World) :
    (c.advance w).1.results = if c.turn.outstanding then [] else c.results := by
  obtain ⟨_, _, _, same⟩ := c.advance_eq
  rw [same]

theorem earlyExit_advance (c : Course β) (w : World) :
    (c.advance w).1.earlyExit = c.earlyExit := by
  obtain ⟨_, _, _, same⟩ := c.advance_eq
  rw [same]

theorem metric_advance (c : Course β) (w : World) :
    (c.advance w).1.progress.metric = c.progress.metric := by
  unfold advance step
  dsimp only
  split
  · split
    · rfl
    · dsimp only
      split
      · exact judged_metric _
      · exact judged_metric _
  · rfl

structure Recalls (start : Course β) (past : List (Deed α)) (c : Course β) : Prop where
  outstanding : c.turn.outstanding = Deed.outstanding past
  results : c.results = Deed.kept past
  given : c.turn.outstanding = true → c.current?.isSome = true
  earlyExit : c.earlyExit = start.earlyExit
  metric : c.progress.metric = start.progress.metric

theorem recalls_of_pulls {start c c' : Course β} {past : List (Deed α)}
    {result : Except Fault (Option α)} (recalls : Recalls start past c)
    (pulls : Pulls c result c') :
    Recalls start (.pulled result :: past) c' := by
  have results (w : World) : (c.advance w).1.results =
      if Deed.outstanding past then [] else Deed.kept past := by
    rw [results_advance, recalls.outstanding, recalls.results]
  have earlyExit (w : World) := (earlyExit_advance c w).trans recalls.earlyExit
  have metric (w : World) := (metric_advance c w).trans recalls.metric
  have settled (w : World) := outstanding_advance c w
  cases pulls with
  | ended w =>
    refine ⟨settled w, results w, ?_, earlyExit w, metric w⟩
    rw [settled w]
    exact fun impossible => nomatch impossible
  | withheld w nothing =>
    have unyielded : Deed.outstanding (.pulled result :: past) = false := by
      rw [Deed.outstanding_pulled, Deed.gives_eq_false nothing]
    refine ⟨(settled w).trans unyielded.symm, results w, ?_, earlyExit w, metric w⟩
    intro impossible
    exact absurd ((settled w).symm.trans impossible) Bool.false_ne_true
  | gave a w there => exact ⟨rfl, results w, fun _ => there, earlyExit w, metric w⟩

theorem recalls_of_ran {start c : Course β} {past : List (Deed α)}
    (settled : start.turn.outstanding = false) (empty : start.results = [])
    (ran : Ran start past c) : Recalls start past c := by
  induction ran with
  | start =>
    refine ⟨settled, empty, ?_, rfl, rfl⟩
    rw [settled]
    exact fun impossible => nomatch impossible
  | pull _ pulls ih => exact recalls_of_pulls ih pulls
  | feed _ batch w ih => exact ⟨ih.outstanding, rfl, ih.given, ih.earlyExit, ih.metric⟩

/-! ### What an item is judged on -/

theorem stepped_pulls {c c' : Course β} {result : Except Fault (Option α)}
    (pulls : Pulls c result c') (outstanding : c.turn.outstanding = true) {b : β}
    (given : c.current? = some b) : Stepped c c' (c.results.best c.progress.metric) := by
  cases pulls with
  | ended w => exact stepped_advance outstanding given w
  | withheld w nothing =>
    have step := stepped_advance outstanding given w
    exact ⟨step.rows, step.history, step.earlyExit, step.metric⟩
  | gave a w there =>
    have step := stepped_advance outstanding given w
    exact ⟨step.rows, step.history, step.earlyExit, step.metric⟩

/-- `c'` is `c` past its current item, which nothing was measured for: no value joins the history,
and with early exit the row ends. -/
structure Missed (c c' : Course β) : Prop where
  verdict : c.verdict = .unmeasured
  rows : c'.rows = c.rows.next c.earlyExit
  history : c'.progress.history =
    if c.rows.entersRow c.earlyExit then [] else c.progress.history

theorem verdict_eq_unmeasured (c : Course β) :
    c.verdict = .unmeasured ↔ c.results.best c.progress.metric = none := by
  unfold verdict Progress.record
  cases c.results.best c.progress.metric with
  | none => exact ⟨fun _ => rfl, fun _ => rfl⟩
  | some value =>
    refine ⟨?_, fun impossible => nomatch impossible⟩
    intro unmeasured
    simp only [Progress.judge] at unmeasured
    split at unmeasured
    · cases unmeasured
    · cases unmeasured

theorem missed_iff {c c' : Course β}
    (step : Stepped c c' (c.results.best c.progress.metric)) :
    Missed c c' ↔ c.results.best c.progress.metric = none := by
  rw [← verdict_eq_unmeasured]
  refine ⟨fun missed => missed.verdict, fun unmeasured => ?_⟩
  have rows := step.rows
  have history := step.history
  rw [(verdict_eq_unmeasured c).mp unmeasured] at rows history
  simp only [Walk.improves, Bool.not_false, Bool.and_true, Option.toList_none, List.append_nil]
    at rows history
  exact ⟨unmeasured, rows, history⟩

/-- Each item of a sweep is judged on the results fed last since it was given out, else on those
left over; it counts as missed exactly when these have no value. -/
def JudgedOnLast {σ : Type} [Source σ α] (course : σ → Course β) (start : σ) : Prop :=
  ∀ (since : List Batch) (a : α) (before : List (Deed α)) (s : σ) (w : World),
    After start (since.map .fed ++ .pulled (.ok (some a)) :: before) s →
    let leftover := if Deed.outstanding before then [] else Deed.kept before
    let value := (since.headD leftover).best (course start).progress.metric
    (course s).earlyExit = (course start).earlyExit ∧
      Stepped (course s) (course (Source.pull s w).source) value ∧
      (Missed (course s) (course (Source.pull s w).source) ↔ value = none)

theorem judgedOnLast_of_follows {σ : Type} [Source σ α] {course : σ → Course β} {Good : σ → Prop}
    (follows : Follows course Good) {start : σ} (good : Good start)
    (settled : (course start).turn.outstanding = false) (empty : (course start).results = []) :
    JudgedOnLast course start := by
  intro since a before s w reached leftover value
  obtain ⟨kept, ran⟩ := follows.ran good reached
  have recalls := recalls_of_ran settled empty ran
  have outstanding : (course s).turn.outstanding = true := by
    rw [recalls.outstanding, Deed.outstanding_fed]
    rfl
  have results : (course s).results = since.headD leftover := by
    rw [recalls.results]
    cases since with
    | nil => rfl
    | cons batch since => rfl
  obtain ⟨b, given⟩ := Option.isSome_iff_exists.mp (recalls.given outstanding)
  have step := stepped_pulls (follows.pulled s w kept).2 outstanding given
  have missed := missed_iff step
  rw [results, recalls.metric] at step missed
  exact ⟨recalls.earlyExit, step, missed⟩

end Course

/-- On load sweeps and on server sweeps that walk, whatever was called before: an item that is not
fed before the next pull counts as missed exactly when what was left over has no value. -/
theorem judged_on_last (exit : Bool) :
    (∀ (variant : String) (batchSizes concurrencies : List UInt32) (metric : String)
      (flags : Keyed String),
      Course.JudgedOnLast (fun c : LoadSweep => c)
        (LoadSweep.of variant batchSizes concurrencies exit metric flags)) ∧
    ∀ (r : Resources) (m : Model) (strategy : Strategy), strategy.isAdaptive = true →
      Course.JudgedOnLast ServerSweep.course (ServerSweep.of r m strategy exit) := by
  constructor
  · intro variant batchSizes concurrencies metric flags
    exact Course.judgedOnLast_of_follows Course.follows trivial rfl rfl
  · intro r m strategy adaptive
    exact Course.judgedOnLast_of_follows ServerSweep.follows adaptive rfl rfl

def twoLoadSweep : LoadSweep := LoadSweep.of "v" [1] [1, 2] true "perf_throughput" []

def strayBatch : Batch := [some ⟨[("perf_throughput", ⟨0x4014000000000000⟩)]⟩]

/-- The sweep fed before its first pull, and then pulled. -/
def strayFed : LoadSweep := ((twoLoadSweep.feed strayBatch {}).1.pull {}).source

theorem after_strayFed :
    After twoLoadSweep
      [.pulled ((twoLoadSweep.feed strayBatch {}).1.pull {}).result, .fed strayBatch] strayFed :=
  (After.start.feed strayBatch {}).pull {}

theorem judged_on_last_strayFed :
    After twoLoadSweep [.pulled (.ok (some ⟨"v", 1, 1, []⟩)), .fed strayBatch] strayFed ∧
    (Strategy.ofPlan {} { name := "m" } false).isAdaptive = true ∧
    Course.Stepped strayFed (strayFed.pull {}).source (some ⟨0x4014000000000000⟩) ∧
    Course.JudgedOnLast ServerSweep.course
      (ServerSweep.of ⟨{}, Repository.ofConfigs [("m", [])], none⟩ { name := "m" }
        (Strategy.ofPlan {} { name := "m" } false) true) :=
  ⟨after_strayFed, rfl,
    ((judged_on_last true).1 "v" [1] [1, 2] "perf_throughput" [] [] ⟨"v", 1, 1, []⟩
      [.fed strayBatch] strayFed {} after_strayFed).2.1,
    (judged_on_last true).2 _ _ _ rfl⟩

/-- What came before the first pull is taken for the results of the first load. -/
theorem not_always_missed :
    ¬ ∀ (a : Load) (before : List (Deed Load)) (c : LoadSweep) (w : World),
      After twoLoadSweep (.pulled (.ok (some a)) :: before) c →
      Course.Missed c (c.pull w).source := by
  intro always
  have missed := always _ _ _ {} after_strayFed
  exact absurd missed.verdict (by decide +kernel)

end ServingSweep
