import ServingSweep.Proofs.Sweep.Notices
import ServingSweep.Proofs.Sweep.Turns

/-!
How often pulls and results come out of turn. The history of the calls tells which of them deserves a
warning (`Deed.warning?`); a sweep counts and reports just those, so that its count follows from the
items that were ignored, the feeds and the items that were answered (`violations_counted`).
-/

namespace ServingSweep
open Source

namespace Source.Deed
variable {α : Type}

def isFeed : Deed α → Bool
  | .fed _ => true
  | .pulled _ => false

/-! ### Items and what follows them -/

/-- The items given out by calls in turn, each with the calls that follow it. -/
def followed : List (Deed α) → List (α × List (Deed α))
  | [] => []
  | .pulled (.ok (some a)) :: later => (a, later) :: followed later
  | _ :: later => followed later

/-- Among the calls after an item, it is fed before the next pull. -/
def answers (later : List (Deed α)) : Bool := !(later.takeWhile isFeed).isEmpty

/-- Among the calls after an item, the next pull comes before it is fed. -/
def ignores (later : List (Deed α)) : Bool :=
  (later.takeWhile isFeed).isEmpty && later.any (fun d => !d.isFeed)

/-- How many items were fed while they were outstanding. -/
def answered (calls : List (Deed α)) : Nat := (followed calls).countP fun e => answers e.2

/-- How many items were pulled past without having been fed. -/
def ignored (calls : List (Deed α)) : Nat := (followed calls).countP fun e => ignores e.2

/-- Each call is a feed exactly if the call before it gave an item out; the first call is none. -/
def Alternates (calls : List (Deed α)) : Prop :=
  (Deed.pulled (.ok none) :: calls).IsChain fun d next => next.isFeed = d.gives

theorem answers_cons (d : Deed α) (later : List (Deed α)) : answers (d :: later) = d.isFeed := by
  cases d <;> rfl

theorem ignores_cons (d : Deed α) (later : List (Deed α)) : ignores (d :: later) = !d.isFeed := by
  cases d <;> rfl

def due (past : List (Deed α)) : Bool := past.head?.any gives

section
variable {holds : List (Deed α) → Bool} {first : Deed α → Bool}

theorem countP_followed_cons (d : Deed α) (later : List (Deed α)) :
    (followed (d :: later)).countP (fun e => holds e.2) =
      (followed later).countP (fun e => holds e.2) + (d.gives && holds later).toNat := by
  rcases d with (fault | _ | a) | batch
  case pulled.ok.some =>
    rw [followed, List.countP_cons]
    cases holds later <;> rfl
  all_goals rfl

theorem countP_followed_concat (none : holds [] = false)
    (settled : ∀ d later, holds (d :: later) = first d) (calls : List (Deed α)) (d : Deed α) :
    (followed (calls ++ [d])).countP (fun e => holds e.2) =
      (followed calls).countP (fun e => holds e.2) +
        (calls.getLast?.any gives && first d).toNat := by
  induction calls with
  | nil => simp [countP_followed_cons, followed, none]
  | cons c calls ih =>
    rw [List.cons_append, countP_followed_cons, countP_followed_cons, ih]
    cases calls with
    | nil => simp [none, settled]
    | cons next calls =>
      rw [List.cons_append, settled, settled, List.getLast?_cons_cons]
      exact Nat.add_right_comm _ _ _

/-- What holds of an item by the first call after it only is settled when that call is made. -/
theorem countP_followed_reverse (none : holds [] = false)
    (settled : ∀ d later, holds (d :: later) = first d) (d : Deed α) (past : List (Deed α)) :
    (followed (d :: past).reverse).countP (fun e => holds e.2) =
      (followed past.reverse).countP (fun e => holds e.2) + (due past && first d).toNat := by
  rw [List.reverse_cons, countP_followed_concat none settled, List.getLast?_reverse, due]

end

theorem answered_reverse_cons (d : Deed α) (past : List (Deed α)) :
    answered (d :: past).reverse = answered past.reverse + (due past && d.isFeed).toNat :=
  countP_followed_reverse rfl answers_cons d past

theorem ignored_reverse_cons (d : Deed α) (past : List (Deed α)) :
    ignored (d :: past).reverse = ignored past.reverse + (due past && !d.isFeed).toNat :=
  countP_followed_reverse rfl ignores_cons d past

theorem alternates_reverse_cons (d : Deed α) (past : List (Deed α)) :
    Alternates (d :: past).reverse ↔ Alternates past.reverse ∧ d.isFeed = due past := by
  rw [List.reverse_cons, Alternates, ← List.cons_append, List.isChain_append, Alternates,
    List.getLast?_cons, List.getLast?_reverse, due]
  cases past.head? <;> simp [gives]

theorem feeds_cons (d : Deed α) (past : List (Deed α)) :
    feeds (d :: past) = feeds past + d.isFeed.toNat := by
  cases d <;> rfl

/-! ### Warnings -/

/-- The warning that a call deserves after others, the last of them first. -/
def warning? (owner : String) (past : List (Deed α)) : Deed α → Option Event
  | .pulled _ => if due past then some (.unreported owner) else none
  | .fed _ =>
    if !outstanding past then some (.stray owner)
    else if due past then none else some (.repeated owner)

end Source.Deed

def Event.isBreach : Event → Bool
  | .unreported _ | .stray _ | .repeated _ => true
  | _ => false

namespace Source.Deed
variable {α : Type}

theorem breach_warning? {owner : String} {past : List (Deed α)} {d : Deed α} {e : Event}
    (warned : warning? owner past d = some e) : e.isBreach = true ∧ e.level = .warn := by
  cases d with
  | pulled result =>
    rw [warning?] at warned
    split at warned
    · cases warned
      exact ⟨rfl, rfl⟩
    · cases warned
  | fed batch =>
    rw [warning?] at warned
    split at warned
    · cases warned
      exact ⟨rfl, rfl⟩
    · split at warned
      · cases warned
      · cases warned
        exact ⟨rfl, rfl⟩

end Source.Deed

/-! ### The count -/

namespace Turn

theorem unexpected_eq (t : Turn) : t.unexpected = !t.unreported := by
  rcases t with ⟨_, outstanding, fed, _⟩
  cases outstanding <;> cases fed <;> rfl

structure Recounts {α : Type} (t : Turn) (past : List (Deed α)) : Prop where
  outstanding : t.outstanding = Deed.outstanding past
  unreported : t.unreported = Deed.due past
  count : t.violations + Deed.answered past.reverse =
    Deed.ignored past.reverse + Deed.feeds past
  clean : t.violations = 0 ↔ Deed.Alternates past.reverse

variable {α : Type} {t t' : Turn} {past : List (Deed α)}

theorem recounts_start : Recounts (α := α) {} [] :=
  ⟨rfl, rfl, rfl, iff_of_true rfl (.singleton _)⟩

/-- A call is a violation if it is a feed while nothing is due, or a pull while something is. -/
theorem Recounts.next {d : Deed α} (recounts : t.Recounts past)
    (outstanding : t'.outstanding = Deed.outstanding (d :: past)) (unreported : t'.unreported = d.gives)
    (violations : t'.violations = t.violations + (d.isFeed != t.unreported).toNat) :
    t'.Recounts (d :: past) := by
  rw [recounts.unreported] at violations
  refine ⟨outstanding, unreported, ?_, ?_⟩
  · have count := recounts.count
    rw [violations, Deed.answered_reverse_cons, Deed.ignored_reverse_cons, Deed.feeds_cons]
    cases d.isFeed <;> cases Deed.due past <;> simp <;> omega
  · rw [violations, Deed.alternates_reverse_cons, ← recounts.clean]
    cases d.isFeed <;> cases Deed.due past <;> simp

theorem Recounts.pulled {result : Except Fault (Option α)} (recounts : t.Recounts past)
    (violations : t'.violations = t.pulled.violations)
    (outstanding : t'.outstanding = (Deed.pulled result).gives)
    (unreported : t'.unreported = (Deed.pulled result).gives) :
    t'.Recounts (.pulled result :: past) := by
  refine recounts.next ?_ unreported ?_
  · rw [outstanding, Deed.outstanding_pulled]
  · rw [violations, Turn.pulled, Deed.isFeed]
    cases t.unreported <;> rfl

theorem Recounts.accepted (recounts : t.Recounts past) (batch : Batch) :
    t.accepted.Recounts (.fed batch :: past) := by
  refine recounts.next recounts.outstanding (Bool.and_false _) ?_
  rw [Turn.accepted, unexpected_eq, Deed.isFeed]
  cases t.unreported <;> rfl

theorem Recounts.pullEvents (recounts : t.Recounts past) (owner : String)
    (result : Except Fault (Option α)) :
    t.pullEvents owner = (Deed.warning? owner past (.pulled result)).toList := by
  rw [Turn.pullEvents, recounts.unreported, Deed.warning?]
  cases Deed.due past <;> rfl

theorem Recounts.feedEvents (recounts : t.Recounts past) (owner : String) (batch : Batch) :
    t.feedEvents owner = (Deed.warning? owner past (.fed batch)).toList := by
  have unreported := recounts.unreported
  rw [Turn.unreported, recounts.outstanding] at unreported
  rw [Turn.feedEvents, recounts.outstanding, Deed.warning?, ← unreported]
  cases Deed.outstanding past <;> cases t.fed <;> rfl

end Turn

namespace TakesTurns
variable {σ α : Type} [Source σ α] {turn : σ → Turn}

/-- A pull leaves results due if it gives an item out. -/
theorem turn_pull (takes : TakesTurns turn) (s : σ) (w : World) :
    let p := Source.pull s w
    (turn p.source).violations = (turn s).pulled.violations ∧
      (turn p.source).outstanding = (Deed.pulled p.result).gives ∧
      (turn p.source).unreported = (Deed.pulled p.result).gives := by
  intro p
  by_cases gave : ∃ a, p.result = .ok (some a)
  · obtain ⟨a, gave⟩ := gave
    rw [takes.gave gave, gave]
    exact ⟨rfl, rfl, rfl⟩
  · have nothing : ∀ a, p.result ≠ .ok (some a) := fun a given => gave ⟨a, given⟩
    obtain ⟨started, turned⟩ := takes.rested nothing
    rw [turned, Deed.gives_eq_false nothing]
    exact ⟨rfl, rfl, rfl⟩

theorem recounts (takes : TakesTurns turn) {start s : σ} {past : List (Deed α)}
    (fresh : turn start = {}) (reached : After start past s) : (turn s).Recounts past := by
  induction reached with
  | start =>
    rw [fresh]
    exact Turn.recounts_start
  | @pull past s _ w ih =>
    obtain ⟨violations, outstanding, unreported⟩ := takes.turn_pull s w
    exact ih.pulled violations outstanding unreported
  | feed _ batch w ih =>
    rw [takes.fed]
    exact ih.accepted batch

end TakesTurns

/-! ### The reports -/

theorem Event.Making.breach {foreign : Event → Prop} {e : Event} (making : Making foreign e)
    (breach : e.isBreach = true) : foreign e := by
  cases making with
  | question told => cases told <;> cases breach
  | foreign told => exact told
  | _ => cases breach

/-- A sweep reports breaches under a name, and else none but what is foreign, as long as it is
`Good`. -/
structure Warns {σ α β : Type} [Source σ α] (course : σ → Course β) (owner : String)
    (foreign : Event → Prop) (Good : σ → Prop) : Prop where
  pulled : ∀ s w, Good s → Good (Source.pull s w).source ∧
    (w.sayAll ((course s).turn.pullEvents owner)).Adds (fun e => e.isBreach = true → foreign e)
      (Source.pull s w).world
  fed : ∀ s batch w, Good s → Good (Source.feed s batch w).1 ∧
    (Source.feed s batch w).2 = w.sayAll ((course s).turn.feedEvents owner)

namespace Course
variable {β : Type}

theorem owner_advance (c : Course β) (w : World) : (c.advance w).1.owner = c.owner := by
  obtain ⟨_, _, _, same⟩ := c.advance_eq
  rw [same]

theorem adds_advance (c : Course β) (w : World) (foreign : Event → Prop) :
    (w.sayAll (c.turn.pullEvents c.owner)).Adds (fun e => e.isBreach = true → foreign e)
      (c.advance w).2 := by
  have notices : ∀ e ∈ c.notice?.toList, e.isBreach = true → foreign e := by
    intro e member breach
    rw [notice?_eq, Option.mem_toList] at member
    split at member
    · cases member
      unfold stopNotice at breach
      split at breach <;> cases breach
    · cases member
  unfold advance
  dsimp only
  split
  · unfold step
    split
    · exact .refl _
    · exact .sayAll _ notices
  · exact .refl _

theorem warns (owner : String) :
    Warns (fun c : Course β => c) owner (fun _ => False) (fun c => c.owner = owner) := by
  refine ⟨?_, ?_⟩
  · rintro c w rfl
    have added := c.adds_advance w (fun _ => False)
    change (c.pull w).source.owner = c.owner ∧ World.Adds _ _ (c.pull w).world
    rcases pull_cases c w with ⟨-, same⟩ | ⟨b, -, same⟩
    · rw [same]
      exact ⟨c.owner_advance w, added⟩
    · rw [same]
      exact ⟨c.owner_advance w, added⟩
  · rintro c batch w rfl
    exact ⟨rfl, rfl⟩

end Course

def Resources.Reports (r : Resources) (e : Event) : Prop :=
  ∃ client call, r.client = some client ∧ e ∈ client.reports call

namespace ServerSweep

theorem owner_pull (s : ServerSweep) (w : World) :
    (s.pull w).source.course.owner = s.course.owner := by
  obtain ⟨base, turn, same⟩ := s.source_pull w
  rw [same]
  exact s.course.owner_advance w

theorem warns (r : Resources) (owner : String) : Warns ServerSweep.course owner r.Reports
    (fun s => s.resources = r ∧ s.course.owner = owner) := by
  refine ⟨?_, ?_⟩
  · rintro s w ⟨rfl, rfl⟩
    have tells : s.resources.Tells s.resources.Reports :=
      fun client held call e member => ⟨client, call, held, member⟩
    have made := (adds_pull tells w).mono fun _ making => making.breach
    exact ⟨⟨(continues_pull s w).resources, owner_pull s w⟩,
      (s.course.adds_advance w s.resources.Reports).trans made⟩
  · rintro s batch w ⟨rfl, rfl⟩
    exact ⟨⟨rfl, rfl⟩, rfl⟩

end ServerSweep

/-! ### Whole runs -/

section
variable {σ α β : Type} [Source σ α] {course : σ → Course β} {owner : String}
  {foreign : Event → Prop} {Good : σ → Prop} {start s : σ} {past : List (Deed α)}

theorem Warns.good_of_after (warns : Warns course owner foreign Good) (good : Good start)
    (reached : After start past s) : Good s := by
  induction reached with
  | start => exact good
  | pull _ w ih => exact (warns.pulled _ w ih).1
  | feed _ batch w ih => exact (warns.fed _ batch w ih).1

/-- A call counts as a violation if it deserves a warning. That is reported first, and then nothing
of its kind but what is foreign. -/
def Told (foreign : Event → Prop) (warning : Option Event) (t t' : Turn) (w w' : World) : Prop :=
  t'.violations = t.violations + warning.toList.length ∧
    (w.sayAll warning.toList).Adds (fun e => e.isBreach = true → foreign e) w'

/-- Whatever was called, a sweep has counted the items that were ignored and the feeds without those
that answered an item first, and nothing exactly if the calls alternate. So it does with each call
further, with one warning for each violation. -/
def CountsBreaches (course : σ → Course β) (owner : String) (foreign : Event → Prop)
    (start : σ) : Prop :=
  ∀ (past : List (Deed α)) (s : σ), After start past s →
    ((course s).turn.violations + Deed.answered past.reverse =
      Deed.ignored past.reverse + Deed.feeds past) ∧
    ((course s).turn.violations = 0 ↔ Deed.Alternates past.reverse) ∧
    (∀ w, let p := Source.pull s w
      Told foreign (Deed.warning? owner past (.pulled p.result)) (course s).turn
        (course p.source).turn w p.world) ∧
    ∀ batch w, let fed := Source.feed s batch w
      Told foreign (Deed.warning? owner past (.fed batch)) (course s).turn
        (course fed.1).turn w fed.2

theorem countsBreaches_of_warns (takes : TakesTurns (fun s => (course s).turn))
    (warns : Warns course owner foreign Good) (good : Good start)
    (fresh : (course start).turn = {}) : CountsBreaches course owner foreign start := by
  intro past s reached
  have recounts := takes.recounts fresh reached
  have good := warns.good_of_after good reached
  refine ⟨recounts.count, recounts.clean, ?_, ?_⟩
  · intro w
    have counted := (course s).turn.length_pullEvents owner
    have added := (warns.pulled s w good).2
    rw [recounts.pullEvents owner (Source.pull s w).result] at counted added
    exact ⟨(takes.turn_pull s w).1.trans counted.symm, added⟩
  · intro batch w
    have counted := (course s).turn.length_feedEvents owner
    have added := (warns.fed s batch w good).2
    rw [recounts.feedEvents owner batch] at counted added
    refine ⟨(congrArg Turn.violations (takes.fed s batch w)).trans counted.symm, ?_⟩
    rw [added]
    exact .refl _

end

/-- A sweep counts each breach of turn once and reports it with one warning, whatever was called. A
load sweep reports no other breach, a server sweep none but those that its server reports. -/
theorem violations_counted (exit : Bool) :
    (∀ (variant : String) (batchSizes concurrencies : List UInt32) (metric : String)
      (flags : Keyed String),
      CountsBreaches (fun c : LoadSweep => c) variant (fun _ => False)
        (LoadSweep.of variant batchSizes concurrencies exit metric flags)) ∧
    (∀ (r : Resources) (m : Model) (strategy : Strategy),
      CountsBreaches ServerSweep.course m.name r.Reports (ServerSweep.of r m strategy exit)) ∧
    ∀ (α : Type) (owner : String) (past : List (Deed α)) (d : Deed α) (e : Event),
      Deed.warning? owner past d = some e → e.isBreach = true ∧ e.level = .warn := by
  refine ⟨?_, ?_, ?_⟩
  · intro variant batchSizes concurrencies metric flags
    exact countsBreaches_of_warns Course.takesTurns (Course.warns variant) rfl rfl
  · intro r m strategy
    exact countsBreaches_of_warns ServerSweep.takesTurns (ServerSweep.warns r m.name) ⟨rfl, rfl⟩ rfl
  · intro α owner past d e warned
    exact Deed.breach_warning? warned

/-- Loads with results before the first pull, none for the first load and two for the second. A sweep
whose first pull fails, with results for that and none for its variant. Calls in turn. -/
theorem violations_counted_outOfTurn :
    let r : Resources :=
      ⟨{}, Repository.ofConfigs [], some { refuseConfig := [true] : Script }.client⟩
    let sweep : Driven LoadSweep Load := ⟨twoLoadSweep, {}, []⟩
    let grid := Strategy.grid (Grid.rows [[]])
    let variants : Driven ServerSweep Variant :=
      ⟨ServerSweep.of r { name := "m" } grid true, {}, []⟩
    let loads := sweep.asks
      [.feed strayBatch, .pull, .pull, .feed strayBatch, .feed strayBatch, .pull]
    let served := variants.asks [.pull, .feed strayBatch, .pull, .pull]
    let inTurn := sweep.asks [.pull, .feed strayBatch, .pull]
    (Deed.ignored loads.past.reverse = 1 ∧ Deed.feeds loads.past = 3 ∧
      Deed.answered loads.past.reverse = 1 ∧ loads.source.turn.violations = 3) ∧
    (Deed.ignored served.past.reverse = 1 ∧ Deed.feeds served.past = 1 ∧
      Deed.answered served.past.reverse = 0 ∧ served.source.course.turn.violations = 2) ∧
    Deed.Alternates inTurn.past.reverse ∧ inTurn.source.turn.violations = 0 ∧
    Deed.warning? "v" loads.past (.fed strayBatch) = some (.stray "v") ∧
    (Event.stray "v").level = .warn := by
  intro r sweep grid variants loads served inTurn
  obtain ⟨onLoads, onServers, warnings⟩ := violations_counted true
  have sweeps := onLoads "v" [1] [1, 2] "perf_throughput" []
  have loadCount := (sweeps loads.past loads.source (sweep.after_asks .start _)).1
  have serverCount := (onServers r { name := "m" } grid served.past served.source
    (variants.after_asks .start _)).1
  have clean := (sweeps inTurn.past inTurn.source (sweep.after_asks .start _)).2.1
  have ignored : Deed.ignored loads.past.reverse = 1 := by decide +kernel
  have feeds : Deed.feeds loads.past = 3 := by decide +kernel
  have answered : Deed.answered loads.past.reverse = 1 := by decide +kernel
  have ignored' : Deed.ignored served.past.reverse = 1 := by decide +kernel
  have feeds' : Deed.feeds served.past = 1 := by decide +kernel
  have answered' : Deed.answered served.past.reverse = 0 := by decide +kernel
  have alternates : Deed.Alternates inTurn.past.reverse := by
    unfold Deed.Alternates
    decide +kernel
  have stray : Deed.warning? "v" loads.past (.fed strayBatch) = some (.stray "v") := by
    decide +kernel
  refine ⟨⟨ignored, feeds, answered, ?_⟩, ⟨ignored', feeds', answered', ?_⟩, alternates,
    clean.mpr alternates, stray, (warnings Load "v" loads.past _ _ stray).2⟩
  · rw [ignored, feeds, answered] at loadCount
    exact Nat.succ.inj loadCount
  · rw [ignored', feeds', answered'] at serverCount
    exact serverCount

end ServingSweep
