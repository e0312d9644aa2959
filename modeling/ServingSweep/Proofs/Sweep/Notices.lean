import ServingSweep.Proofs.Sweep.Additions
import ServingSweep.Proofs.Sweep.Standing
import ServingSweep.Simulation.Server

/-!
The notice why a row ends early. A sweep gives it when it steps past the first item that falls short
of its row, and then never again (`Noted.pulled`); `noticed_once` states it for whole runs of load
sweeps and server sweeps.
-/

namespace ServingSweep
open Source

/-! ### Notices -/

namespace World
variable {w : World}

def notices (w : World) : List Event := w.log.filter Event.isNotice

theorem notices_sayAll (w : World) (es : List Event) :
    (w.sayAll es).notices = w.notices ++ es.filter Event.isNotice := by
  rw [notices, sayAll_log, List.filter_append, notices]

theorem notices_of_adds {w' : World} (adds : w.Adds (fun e => e.isNotice = false) w') :
    w'.notices = w.notices := by
  obtain ⟨es, log, plain⟩ := adds
  have none : es.filter Event.isNotice = [] :=
    List.filter_eq_nil_iff.mpr fun e member => Bool.eq_false_iff.mp (plain e member)
  rw [notices, log, List.filter_append, none, List.append_nil, notices]

theorem notices_sayAll_of_plain {es : List Event} (plain : ∀ e ∈ es, e.isNotice = false) :
    (w.sayAll es).notices = w.notices :=
  notices_of_adds (.sayAll w plain)

end World

def stopNotice (dimension : Dimension) (metric : String) (batch : Batch) : Event :=
  if (batch.best metric).isNone then .unmeasured dimension metric
  else .plateaued dimension metric

theorem isNotice_stopNotice (dimension : Dimension) (metric : String) (batch : Batch) :
    (stopNotice dimension metric batch).isNotice = true := by
  unfold stopNotice
  split <;> rfl

theorem level_stopNotice (dimension : Dimension) (metric : String) (batch : Batch) :
    (stopNotice dimension metric batch).level =
      if (batch.best metric).isNone then .warn else .info := by
  unfold stopNotice
  split <;> rfl

/-! ### Rows that end early -/

theorem Walk.stops_grown {β : Type} {exit : Bool} {metric : String}
    {parts parts' : List (List (β × Batch))} {here here' : List (β × Batch)}
    {e : Option (β × Batch)} (grows : Course.Grows parts here e parts' here') :
    (parts' ++ [here']).flatMap (stops exit metric) = (parts ++ [here]).flatMap (stops exit metric) ++
      (e.filter fun e => exit && !improves (bestsOf metric here) (e.2.best metric)).toList := by
  have short (e : β × Batch) : stops exit metric (here ++ [e]) = stops exit metric here ++
      ((some e).filter fun e =>
        exit && !improves (bestsOf metric here) (e.2.best metric)).toList := by
    rw [stops_concat, Option.filter_some]
    split <;> rfl
  simp only [List.flatMap_append, List.flatMap_singleton]
  cases grows with
  | still => exact (List.append_nil _).symm
  | within e => rw [short, List.append_assoc]
  | left e =>
    rw [List.flatMap_append, List.flatMap_singleton, short, stops_nil]
    simp only [List.append_assoc, List.append_nil]

/-! ### One pull of a course -/

namespace Progress
variable {p : Progress} {batch : Batch}

theorem notice?_record (short : (p.record batch).1.isImproving = false) :
    p.notice? (p.record batch).1 =
      if p.noticed then none else some (stopNotice p.dimension p.metric batch) := by
  unfold record at short ⊢
  unfold stopNotice
  cases best : batch.best p.metric with
  | none => rfl
  | some value =>
    rw [best] at short
    have plateaued : judge p.history value = .plateaued := by
      simp only [judge] at short ⊢
      split at short
      · cases short
      · next above => rw [if_neg above]
    simp only [plateaued]
    rfl

theorem noticed_record (p : Progress) (batch : Batch) :
    (p.record batch).2.noticed = p.noticed ∧ (p.record batch).2.dimension = p.dimension ∧
      ∀ v, (p.record batch).2.notice? v = p.notice? v := by
  unfold record
  split <;> exact ⟨rfl, rfl, fun _ => rfl⟩

end Progress

namespace Course
variable {α β : Type}

/-- The item that the next pull steps past, if its row ends there. -/
def stopping? (c : Course β) : Option (β × Batch) :=
  (c.due?.map fun b => (b, c.results)).filter fun _ => c.stops

theorem notice?_eq (c : Course β) : c.notice? =
    if c.stops && !c.progress.noticed then
      some (stopNotice c.progress.dimension c.progress.metric c.results)
    else none := by
  unfold notice?
  cases stops : c.stops with
  | false => rfl
  | true =>
    have short : c.verdict.isImproving = false := by
      simpa using (Bool.and_eq_true_iff.mp stops).2
    rw [if_pos rfl, verdict, Progress.notice?_record short]
    cases c.progress.noticed <;> rfl

theorem noticed_judged (c : Course β) :
    c.judged.noticed = (c.progress.noticed || c.stops) ∧
      c.judged.dimension = c.progress.dimension := by
  obtain ⟨noticed, dimension, notice⟩ := c.progress.noticed_record c.results
  have told := c.notice?_eq
  unfold notice? at told
  unfold judged
  cases stops : c.stops with
  | false =>
    rw [Bool.or_false]
    exact ⟨noticed, dimension⟩
  | true =>
    rw [stops, if_pos rfl] at told
    refine ⟨?_, dimension⟩
    change (_ || _) = _
    rw [noticed, notice, told]
    cases c.progress.noticed <;> rfl

theorem advance_undue {c : Course β} (undue : c.due? = none) (w : World) :
    (c.advance w).2.notices = w.notices ∧ (c.advance w).1.progress = c.progress := by
  have told := World.notices_sayAll_of_plain (w := w) (c.turn.plain_pullEvents c.owner)
  unfold advance
  dsimp only
  split
  · next outstanding =>
    have empty : c.rows.isEmpty = true := by
      rw [due?, if_pos outstanding] at undue
      rw [Rows.eq_nil_of_current? undue]
      rfl
    unfold step
    rw [if_pos empty]
    exact ⟨told, rfl⟩
  · exact ⟨told, rfl⟩

theorem advance_due {c : Course β} {b : β} (due : c.due? = some b) (w : World) :
    (c.advance w).2.notices = w.notices ++ c.notice?.toList ∧
      (c.advance w).1.progress.noticed = (c.progress.noticed || c.stops) ∧
      (c.advance w).1.progress.dimension = c.progress.dimension := by
  have told := World.notices_sayAll_of_plain (w := w) (c.turn.plain_pullEvents c.owner)
  obtain ⟨noticed, dimension⟩ := c.noticed_judged
  have notice : c.notice?.toList.filter Event.isNotice = c.notice?.toList := by
    rw [notice?_eq]
    split <;> simp [isNotice_stopNotice]
  unfold due? at due
  split at due
  · next outstanding =>
    have walked : ¬c.rows.isEmpty = true := by
      intro empty
      rw [current?, Series.isEmpty_iff.mp empty] at due
      cases due
    unfold advance step
    simp only [outstanding, if_true]
    rw [if_neg walked]
    refine ⟨?_, ?_, ?_⟩
    · rw [World.notices_sayAll, told]
      exact congrArg _ notice
    · dsimp only
      split <;> exact noticed
    · dsimp only
      split <;> exact dimension
  · cases due

/-- A pull gives the notice when it steps past an item that ends its row, unless it was given. -/
theorem tells_advance (c : Course β) (w : World) :
    (c.advance w).2.notices = w.notices ++ (if c.progress.noticed then none
      else c.stopping?.map fun e =>
        stopNotice c.progress.dimension c.progress.metric e.2).toList ∧
      (c.advance w).1.progress.noticed = (c.progress.noticed || c.stopping?.isSome) ∧
      (c.advance w).1.progress.dimension = c.progress.dimension := by
  cases due : c.due? with
  | none =>
    obtain ⟨told, progress⟩ := advance_undue due w
    rw [told, progress, stopping?, due]
    simp
  | some b =>
    obtain ⟨told, noticed, dimension⟩ := advance_due due w
    rw [told, noticed, dimension, notice?_eq, stopping?, due]
    cases c.stops <;> cases c.progress.noticed <;> simp [Option.filter]

/-! ### The first stop -/

/-- The notices of a course that has gone through some rows: one for the first item after which a
row ended early, if there was one. -/
structure Noted (start : Course β) (before : World) (rows : List (List (β × Batch)))
    (c : Course β) (after : World) : Prop where
  notices : after.notices = before.notices ++
    ((rows.flatMap (Walk.stops start.earlyExit start.progress.metric)).head?.map fun e =>
      stopNotice start.progress.dimension start.progress.metric e.2).toList
  noticed : c.progress.noticed =
    (rows.flatMap (Walk.stops start.earlyExit start.progress.metric)).head?.isSome
  dimension : c.progress.dimension = start.progress.dimension

variable {made : β → α → Prop} {start c c' : Course β} {past : List (Deed α)}
  {parts parts' : List (List (β × Batch))} {here here' : List (β × Batch)}
  {before after w : World} {result : Except Fault (Option α)}

theorem Pulls.progress_eq (pulls : Pulls c result c') (w : World) :
    c'.progress = (c.advance w).1.progress := by
  cases pulls with
  | ended w' => rw [advance_elsewhere c w' w]
  | withheld w' nothing => rw [advance_elsewhere c w w']; rfl
  | gave a w' there => rw [advance_elsewhere c w w']; rfl

theorem Account.stops_grown (account : Account made start past c parts here)
    (grows : Grows parts here (c.due?.map fun b => (b, c.results)) parts' here') :
    (parts' ++ [here']).flatMap (Walk.stops start.earlyExit start.progress.metric) =
      (parts ++ [here]).flatMap (Walk.stops start.earlyExit start.progress.metric) ++
        c.stopping?.toList := by
  rw [Walk.stops_grown grows, stopping?, Course.stops_eq, account.recalls.earlyExit,
    account.recalls.metric, account.history]
  cases c.due? <;> rfl

theorem Noted.pulled (noted : Noted start before (parts ++ [here]) c w)
    (account : Account made start past c parts here) (pulls : Pulls c result c')
    (grows : Grows parts here (c.due?.map fun b => (b, c.results)) parts' here')
    (told : after.notices = (c.advance w).2.notices) :
    Noted start before (parts' ++ [here']) c' after := by
  obtain ⟨notices, noticed, dimension⟩ := noted
  obtain ⟨further, noticed', dimension'⟩ := c.tells_advance w
  have stops := account.stops_grown grows
  rw [noticed, dimension, account.recalls.metric, notices] at further
  rw [noticed] at noticed'
  -- A stop before this pull has set the flag; without one, the pull tells of its own.
  refine ⟨?_, ?_, ?_⟩
  · rw [told, further, stops]
    cases (parts ++ [here]).flatMap (Walk.stops start.earlyExit start.progress.metric) with
    | nil => cases c.stopping? <;> simp
    | cons first rest => simp
  · rw [pulls.progress_eq w, noticed', stops]
    cases (parts ++ [here]).flatMap (Walk.stops start.earlyExit start.progress.metric) with
    | nil => cases c.stopping? <;> simp
    | cons first rest => simp
  · rw [pulls.progress_eq w, dimension', dimension]

end Course

/-! ### What else is reported -/

def Client.Quiet (c : Client) : Prop := ∀ call, ∀ e ∈ c.reports call, e.isNotice = false

def Resources.Quiet (r : Resources) : Prop := ∀ client, r.client = some client → client.Quiet

/-- Of a pull only the step past the variant before may give a notice. -/
theorem ServerSweep.notices_pull {s : ServerSweep} (quiet : s.resources.Quiet) (w : World) :
    (s.pull w).world.notices = (s.course.advance w).2.notices :=
  World.notices_of_adds ((adds_pull quiet w).mono fun _ making => making.plain)

/-! ### Whole runs -/

/-- A sweep gives no notices but those of its course, as long as it is `Good`. -/
structure Tells {σ α β : Type} [Source σ α] (course : σ → Course β) (Good : σ → Prop) : Prop where
  pulled : ∀ s w, Good s →
    (Source.pull s w).world.notices = ((course s).advance w).2.notices
  fed : ∀ s batch w, Good s → (Source.feed s batch w).2.notices = w.notices

theorem Course.tells {α : Type} : Tells (fun c : Course α => c) (fun _ => True) := by
  refine ⟨?_, fun c batch w _ => World.notices_sayAll_of_plain (c.turn.plain_feedEvents c.owner)⟩
  intro c w _
  change (c.pull w).world.notices = _
  rcases pull_cases c w with ⟨-, same⟩ | ⟨a, -, same⟩
  · rw [same]
  · rw [same]

theorem ServerSweep.tells {r : Resources} {m : Model} (quiet : r.Quiet) :
    Tells ServerSweep.course (Sweeps r m) := by
  refine ⟨?_, fun s batch w _ => ?_⟩
  · intro s w sweeps
    have still : s.resources.Quiet := by rw [sweeps.resources]; exact quiet
    exact notices_pull still w
  · exact World.notices_sayAll_of_plain (s.course.turn.plain_feedEvents s.course.owner)

section
variable {σ α β : Type} [Source σ α] {course : σ → Course β} {made : σ → β → α → Prop}
  {Good Fit : σ → Prop} {start : Course β} {w : World}

structure Noting (course : σ → Course β) (made : σ → β → α → Prop) (Good Fit : σ → Prop)
    (start : Course β) (w : World) (d : Driven σ α) : Prop where
  good : Good d.source
  fit : Fit d.source
  told : ∃ parts here,
    Course.Account (made d.source) start d.past (course d.source) parts here ∧
      Course.Noted start w (parts ++ [here]) (course d.source) d.world

theorem noting_ask (follows : Follows course Good) (walks : Walks course made Fit)
    (tells : Tells course Fit) {d : Driven σ α} (noting : Noting course made Good Fit start w d)
    (call : Ask) : Noting course made Good Fit start w (d.ask call) := by
  obtain ⟨good, fit, parts, here, account, noted⟩ := noting
  cases call with
  | pull =>
    obtain ⟨⟨good', fit'⟩, parts', here', account', grows⟩ :=
      walks.account_pull follows d.world good fit account
    have pulls := (follows.pulled d.source d.world good).2
    have told := tells.pulled d.source d.world fit
    exact ⟨good', fit', parts', here', account', noted.pulled account pulls grows told⟩
  | feed batch =>
    obtain ⟨⟨good', fit'⟩, account'⟩ := walks.account_feed follows batch d.world good fit account
    have same := (follows.fed d.source batch d.world good).2
    obtain ⟨notices, noticed, dimension⟩ := noted
    refine ⟨good', fit', parts, here, account', ?_, ?_, ?_⟩
    · exact (tells.fed d.source batch d.world fit).trans notices
    · change (course (Source.feed d.source batch d.world).1).progress.noticed = _
      rw [same]
      exact noticed
    · change (course (Source.feed d.source batch d.world).1).progress.dimension = _
      rw [same]
      exact dimension

theorem noting_asks (follows : Follows course Good) (walks : Walks course made Fit)
    (tells : Tells course Fit) {d : Driven σ α} (noting : Noting course made Good Fit start w d)
    (calls : List Ask) : Noting course made Good Fit start w (d.asks calls) := by
  induction calls generalizing d with
  | nil => exact noting
  | cons call calls ih => exact ih (noting_ask follows walks tells noting call)

/-- The notices of a run and the flag for them: one for the first item that a row ended after early,
if there was one. -/
def NoticedOnce (made : β → α → Prop) (lists : List (List β)) (exit : Bool)
    (dimension : Dimension) (metric : String) (before : World) (past : List (Deed α))
    (c : Course β) (after : World) : Prop :=
  ∃ parts here, Course.Standing made lists exit metric past c parts here ∧
    let first := ((parts ++ [here]).flatMap (Walk.stops exit metric)).head?
    after.notices = before.notices ++
      (first.map fun e => stopNotice dimension metric e.2).toList ∧
    c.progress.noticed = first.isSome

theorem noticedOnce_of_walks (follows : Follows course Good) (walks : Walks course made Fit)
    (tells : Tells course Fit) {s : σ} (good : Good s) (fit : Fit s) (fresh : (course s).Fresh)
    (unnoticed : (course s).progress.noticed = false) {lists : List (List β)}
    (rows : (course s).rows.lists = lists) (w : World) (calls : List Ask) :
    let d := (⟨s, w, []⟩ : Driven σ α).asks calls
    NoticedOnce (made d.source) lists (course s).earlyExit (course s).progress.dimension
      (course s).progress.metric w d.past (course d.source) d.world := by
  intro d
  have none : ([] ++ [([] : List (β × Batch))]).flatMap
      (Walk.stops (course s).earlyExit (course s).progress.metric) = [] := by
    rw [List.nil_append, List.flatMap_singleton, Walk.stops_nil]
  have begun : Noting course made Good Fit (course s) w (⟨s, w, []⟩ : Driven σ α) := by
    refine ⟨good, fit, [], [], Course.account_start fresh, ?_, ?_, rfl⟩
    · rw [none]
      exact (List.append_nil _).symm
    · rw [none]
      exact unnoticed
  obtain ⟨-, -, parts, here, account, noted⟩ := noting_asks follows walks tells begun calls
  subst rows
  exact ⟨parts, here, account.standing, noted.notices, noted.noticed⟩

end

namespace ServerSweep

structure Unnoticed (w : World) (d : Driven ServerSweep Variant) : Prop where
  quiet : d.source.resources.Quiet
  rows : d.source.course.rows = .nil
  notices : d.world.notices = w.notices
  noticed : d.source.course.progress.noticed = false

theorem unnoticed_ask {w : World} {d : Driven ServerSweep Variant} (unnoticed : Unnoticed w d)
    (call : Ask) : Unnoticed w (d.ask call) := by
  obtain ⟨quiet, rows, notices, noticed⟩ := unnoticed
  cases call with
  | pull =>
    have undue : d.source.course.due? = none := by
      rw [Course.due?, Course.current?, rows]
      exact ite_self _
    obtain ⟨told, progress⟩ := Course.advance_undue undue d.world
    obtain ⟨base, turn, same⟩ := d.source.source_pull d.world
    refine ⟨?_, ?_, ?_, ?_⟩
    · change (d.source.pull d.world).source.resources.Quiet
      rw [same]
      exact quiet
    · change (d.source.pull d.world).source.course.rows = .nil
      rw [same]
      exact Course.rows_advance_of_nil rows d.world
    · exact (notices_pull quiet d.world).trans (told.trans notices)
    · change (d.source.pull d.world).source.course.progress.noticed = false
      rw [same]
      exact (congrArg Progress.noticed progress).trans noticed
  | feed batch =>
    have plain := d.source.course.turn.plain_feedEvents d.source.course.owner
    exact ⟨quiet, rows, (World.notices_sayAll_of_plain plain).trans notices, noticed⟩

theorem unnoticed_asks {w : World} {d : Driven ServerSweep Variant} (unnoticed : Unnoticed w d)
    (calls : List Ask) : Unnoticed w (d.asks calls) := by
  induction calls generalizing d with
  | nil => exact unnoticed
  | cons call calls ih => exact ih (unnoticed_ask unnoticed call)

end ServerSweep

/-- Whatever is called, one notice at most is given for all rows: for the first item stepped past
that falls short of its row, with early exit on, a warning if nothing was measured for it. The
flag tells whether it was given. A sweep that walks nothing gives none. -/
theorem noticed_once (exit : Bool) (w : World) (calls : List Ask) :
    (∀ (variant : String) (batchSizes concurrencies : List UInt32) (metric : String)
      (flags : Keyed String),
      let d := (⟨LoadSweep.of variant batchSizes concurrencies exit metric flags, w, []⟩ :
        Driven LoadSweep Load).asks calls
      NoticedOnce Eq (LoadSweep.table variant batchSizes concurrencies flags) exit .concurrency
        metric w d.past d.source d.world) ∧
    (∀ (r : Resources) (m : Model) (strategy : Strategy), r.Quiet →
      let d := (⟨ServerSweep.of r m strategy exit, w, []⟩ : Driven ServerSweep Variant).asks calls
      (∀ lists, strategy.Lays lists →
        NoticedOnce d.source.Derived (lists.filter fun row => !row.isEmpty) exit .batchSize
          r.plan.objective w d.past d.source.course d.world) ∧
      (strategy.isAdaptive = false →
        d.world.notices = w.notices ∧ d.source.course.progress.noticed = false)) ∧
    ∀ dimension metric batch, (stopNotice dimension metric batch).level =
      if (batch.best metric).isNone then .warn else .info := by
  refine ⟨?_, ?_, level_stopNotice⟩
  · intro variant batchSizes concurrencies metric flags
    have rows := LoadSweep.lists_of variant batchSizes concurrencies exit metric flags
    exact noticedOnce_of_walks Course.follows Course.walks Course.tells trivial trivial
      ⟨rfl, rfl, rfl⟩ rfl rows w calls
  · intro r m strategy quiet d
    constructor
    · intro lists lays
      have sweeps : ServerSweep.Sweeps r m (ServerSweep.of r m strategy exit) :=
        ⟨rfl, rfl, lays.adaptive⟩
      exact noticedOnce_of_walks ServerSweep.follows ServerSweep.walks (ServerSweep.tells quiet)
        lays.adaptive sweeps ⟨rfl, rfl, rfl⟩ rfl lays.lists_eq w calls
    · intro fixed
      have nothing : strategy.rows = .nil := by
        cases strategy with
        | baseline => rfl
        | remote => rfl
        | grid rows => cases fixed
        | ladder rows => cases fixed
      have begun : ServerSweep.Unnoticed w ⟨ServerSweep.of r m strategy exit, w, []⟩ :=
        ⟨quiet, nothing, rfl, rfl⟩
      have unnoticed := ServerSweep.unnoticed_asks begun calls
      exact ⟨unnoticed.notices, unnoticed.noticed⟩

theorem Simulation.quiet_server : Simulation.server.Quiet := by
  intro call e member
  cases call with
  | load model => rw [List.mem_singleton.mp member]; rfl
  | unload model => rw [List.mem_singleton.mp member]; rfl
  | config model retries => cases member

/-- A row that ends on an item without results and a row that ends on an equal value: only the first
is noticed. A row of loads that ends on an equal value, and a base configuration alone. -/
theorem noticed_once_twoStops :
    let five := throughput ⟨0x4014000000000000⟩
    let r : Resources := ⟨{}, Repository.ofConfigs [], some Simulation.server⟩
    let m : Model := { name := "m" }
    let sized (count size : UInt32) : Overrides :=
      [("count", .word count), (Overrides.batchSizeKey, .word size)]
    let grid := Strategy.grid (Grid.rows [sized 1 1, sized 1 2, sized 2 1, sized 2 2, sized 2 4])
    let lists := [[sized 1 1, sized 1 2], [sized 2 1, sized 2 2, sized 2 4]]
    let calls : List Ask := [.pull, .pull, .feed five, .pull, .feed five, .pull]
    let walk := (⟨ServerSweep.of r m grid true, {}, []⟩ : Driven ServerSweep Variant).asks calls
    let still :=
      (⟨ServerSweep.of r m .baseline true, {}, []⟩ : Driven ServerSweep Variant).asks calls
    let loads := (⟨LoadSweep.of "v" [1] [1, 2] true "perf_throughput" [], {}, []⟩ :
      Driven LoadSweep Load).asks [.pull, .feed five, .pull, .feed five, .pull]
    r.Quiet ∧ grid.Lays lists ∧
      NoticedOnce walk.source.Derived (lists.filter fun row => !row.isEmpty) true .batchSize
        r.plan.objective {} walk.past walk.source.course walk.world ∧
      walk.world.notices = [.unmeasured .batchSize "perf_throughput"] ∧
      still.world.notices = World.notices {} ∧
      NoticedOnce Eq (LoadSweep.table "v" [1] [1, 2] []) true .concurrency "perf_throughput" {}
        loads.past loads.source loads.world ∧
      loads.world.notices = [.plateaued .concurrency "perf_throughput"] := by
  intro five r m sized grid lists calls walk still loads
  have quiet : r.Quiet := by
    rintro client ⟨⟩
    exact Simulation.quiet_server
  have blocks : [sized 1 1, sized 1 2, sized 2 1, sized 2 2, sized 2 4].splitBy
      (fun o o' => decide (o.rowKey = o'.rowKey)) = lists := by decide +kernel
  have lays : grid.Lays lists := by
    rw [← blocks]
    exact .grid _
  obtain ⟨-, onServers, -⟩ := noticed_once true {} calls
  have never := ((onServers r m .baseline quiet).2 rfl).1
  have once := (onServers r m grid quiet).1 lists lays
  refine ⟨quiet, lays, once, by decide +kernel, never, ?_,
    by decide +kernel⟩
  exact (noticed_once true {} _).1 "v" [1] [1, 2] "perf_throughput" []

end ServingSweep
