import ServingSweep.Proofs.Sweep.InTurn

/-!
What a sweep remembers of its row. An item is stepped past with the results at hand, and by
`Account.pulled` the history of a course is made of the best values of those items of its row that
it stepped past, whatever is called. `history_of_row` states it for load sweeps and server sweeps.
-/

namespace ServingSweep
open Source
open scoped List

namespace Source.Deed
variable {α : Type}

def due? : List (Deed α) → Option α
  | [] => none
  | .fed _ :: past => due? past
  | .pulled (.ok (some a)) :: _ => some a
  | .pulled _ :: _ => none

/-- The items that a pull stepped past, each with the results at hand then. -/
def passed : List (Deed α) → List (α × Batch)
  | [] => []
  | .fed _ :: past => passed past
  | .pulled _ :: past => passed past ++ ((due? past).map fun a => (a, kept past)).toList

end Source.Deed

/-! ### Rows that are left -/

namespace Walk
variable {β : Type} {exit : Bool} {metric : String}

def bestsOf (metric : String) (items : List (β × Batch)) : List Binary64 :=
  items.filterMap fun e => e.2.best metric

/-- The items of a row whose values do not improve on `earlier` ones and those before them. -/
def shortfalls (metric : String) : List Binary64 → List (β × Batch) → List (β × Batch)
  | _, [] => []
  | earlier, e :: items =>
    let value := e.2.best metric
    (if improves earlier value then [] else [e]) ++
      shortfalls metric (earlier ++ value.toList) items

def stops (exit : Bool) (metric : String) (items : List (β × Batch)) : List (β × Batch) :=
  if exit then shortfalls metric [] items else []

/-- A row as it was left: gone through to its end, or to the first item that ended it early. -/
structure Left (exit : Bool) (metric : String) (part : List (β × Batch)) (row : List β) :
    Prop where
  begun : part ≠ []
  front : part.map Prod.fst <+: row
  before : stops exit metric part.dropLast = []
  done : stops exit metric part = [] → part.map Prod.fst = row

/-- Where a walk is in its rows: what it went through of those that it left and, within the row that
it is in, the items `here`; then what is left. -/
inductive Stand (exit : Bool) (metric : String) (lists : List (List β)) :
    List (List (β × Batch)) → List (β × Batch) → List (List β) → Prop where
  | within {behind rest : List (List β)} {parts : List (List (β × Batch))}
      {here : List (β × Batch)} {row : List β}
      (split : lists = behind ++ (here.map Prod.fst ++ row) :: rest)
      (left : List.Forall₂ (Left exit metric) parts behind)
      (goesOn : stops exit metric here = []) : Stand exit metric lists parts here (row :: rest)
  | ended {parts : List (List (β × Batch))} (left : List.Forall₂ (Left exit metric) parts lists) :
      Stand exit metric lists parts [] []

theorem bestsOf_concat (metric : String) (items : List (β × Batch)) (e : β × Batch) :
    bestsOf metric (items ++ [e]) = bestsOf metric items ++ (e.2.best metric).toList := by
  rw [bestsOf, bestsOf, List.filterMap_append]
  cases best : e.2.best metric <;> simp [best]

theorem shortfalls_concat (metric : String) (earlier : List Binary64) (items : List (β × Batch))
    (e : β × Batch) :
    shortfalls metric earlier (items ++ [e]) = shortfalls metric earlier items ++
      if improves (earlier ++ bestsOf metric items) (e.2.best metric) then [] else [e] := by
  induction items generalizing earlier with
  | nil => simp [shortfalls, bestsOf]
  | cons first items ih =>
    have values : earlier ++ (first.2.best metric).toList ++ bestsOf metric items =
        earlier ++ bestsOf metric (first :: items) := by
      cases best : first.2.best metric <;> simp [bestsOf, best]
    rw [List.cons_append, shortfalls, ih, values, shortfalls, List.append_assoc]

theorem stops_nil : stops exit metric ([] : List (β × Batch)) = [] := by
  unfold stops
  split <;> rfl

theorem stops_concat (items : List (β × Batch)) (e : β × Batch) :
    stops exit metric (items ++ [e]) = stops exit metric items ++
      if exit && !improves (bestsOf metric items) (e.2.best metric) then [e] else [] := by
  unfold stops
  cases exit with
  | false => rfl
  | true =>
    rw [if_pos rfl, if_pos rfl, shortfalls_concat, List.nil_append]
    cases improves (bestsOf metric items) (e.2.best metric) <;> rfl

theorem rising_of_stops {items : List (β × Batch)} (goesOn : stops true metric items = []) :
    (bestsOf metric items).Pairwise (fun v v' => v.lt v' = true) ∧
      (bestsOf metric items).length = items.length := by
  -- By the last item: those before it did not end the row either.
  induction items using List.reverseRecOn with
  | nil => exact ⟨.nil, rfl⟩
  | append_singleton items e ih =>
    rw [stops_concat, List.append_eq_nil_iff] at goesOn
    obtain ⟨pairwise, length⟩ := ih goesOn.1
    have improves : improves (bestsOf metric items) (e.2.best metric) = true := by
      by_contra short
      simp [short] at goesOn
    rw [bestsOf_concat, List.length_append, List.length_append, length]
    cases best : e.2.best metric with
    | none => rw [best] at improves; cases improves
    | some v =>
      rw [best] at improves
      refine ⟨List.pairwise_append.mpr ⟨pairwise, List.pairwise_singleton _ v, ?_⟩, rfl⟩
      intro earlier member v' last
      obtain rfl := List.mem_singleton.mp last
      exact List.all_eq_true.mp improves earlier member

theorem Stand.goesOn {lists left : List (List β)} {parts : List (List (β × Batch))}
    {here : List (β × Batch)} (stand : Stand exit metric lists parts here left) :
    stops exit metric here = [] := by
  cases stand with
  | within _ _ goesOn => exact goesOn
  | ended _ => exact stops_nil

theorem stand_enter {lists behind left : List (List β)} {parts : List (List (β × Batch))}
    (split : lists = behind ++ left) (gone : List.Forall₂ (Left exit metric) parts behind) :
    Stand exit metric lists parts [] left := by
  cases left with
  | nil =>
    rw [List.append_nil] at split
    subst split
    exact .ended gone
  | cons row rest => exact .within split gone stops_nil

/-- Past the current item a walk stays in its row, or leaves it at its end or early. -/
theorem stand_next {lists : List (List β)} {parts : List (List (β × Batch))}
    {here : List (β × Batch)} {left : Rows β} {b : β} (batch : Batch) {stop : Bool}
    (stand : Stand exit metric lists parts here left.lists)
    (current : left.current? = some b)
    (judged : (exit && !improves (bestsOf metric here) (batch.best metric)) = stop) :
    if left.entersRow stop then
      Stand exit metric lists (parts ++ [here ++ [(b, batch)]]) [] (left.next stop).lists
    else Stand exit metric lists parts (here ++ [(b, batch)]) (left.next stop).lists := by
  obtain ⟨tail, rest, same, enters, next⟩ := Rows.lists_next current stop
  rw [same] at stand
  rw [next]
  cases stand with
  | @within behind _ _ _ _ split gone goesOn =>
    have stops : stops exit metric (here ++ [(b, batch)]) = if stop then [(b, batch)] else [] := by
      rw [stops_concat, goesOn, judged, List.nil_append]
    -- The row is left behind it, at its end or early, or goes on with a shorter tail.
    split
    · next entered =>
      rw [enters] at entered
      have left : Left exit metric (here ++ [(b, batch)]) (here.map Prod.fst ++ b :: tail) := by
        refine ⟨by simp, ⟨tail, by simp⟩, by simpa using goesOn, ?_⟩
        intro unstopped
        have ended : tail = [] := by
          cases early : stop with
          | true => rw [stops, early] at unstopped; cases unstopped
          | false => simpa [early] using entered
        simp [ended]
      have whole : lists = (behind ++ [here.map Prod.fst ++ b :: tail]) ++ rest := by simp [split]
      exact stand_enter whole (List.rel_append gone (.cons left .nil))
    · next stays =>
      rw [enters, Bool.or_eq_true, not_or] at stays
      have further : lists =
          behind ++ ((here ++ [(b, batch)]).map Prod.fst ++ tail) :: rest := by simp [split]
      exact .within further gone (by rw [stops, if_neg stays.1])

end Walk

/-! ### Accounts -/

namespace Course
open Walk
variable {α β : Type}

def due? (c : Course β) : Option β := if c.turn.outstanding then c.current? else none

/-- What a sweep stepped past, each item with its results: `parts` of the rows that it left, and
`here` of the row that it stands in. -/
structure Standing (made : β → α → Prop) (lists : List (List β)) (exit : Bool) (metric : String)
    (past : List (Deed α)) (c : Course β) (parts : List (List (β × Batch)))
    (here : List (β × Batch)) : Prop where
  passed : List.Forall₂ (fun e e' => made e.1 e'.1 ∧ e.2 = e'.2) (parts.flatten ++ here)
    (Deed.passed past)
  stand : Stand exit metric lists parts here c.rows.lists

structure Account (made : β → α → Prop) (start : Course β) (past : List (Deed α)) (c : Course β)
    (parts : List (List (β × Batch))) (here : List (β × Batch)) : Prop where
  recalls : Recalls start past c
  due : Option.Rel made c.due? (Deed.due? past)
  standing : Standing made start.rows.lists start.earlyExit start.progress.metric past c parts here
  history : c.progress.history = bestsOf start.progress.metric here

variable {made made' : β → α → Prop} {start c c' : Course β} {past : List (Deed α)}
  {parts : List (List (β × Batch))} {here : List (β × Batch)} {result : Except Fault (Option α)}

theorem account_start (fresh : start.Fresh) : Account made start [] start [] [] := by
  refine ⟨recalls_of_ran fresh.settled fresh.empty .start, ?_, ⟨.nil, ?_⟩, fresh.unjudged⟩
  · rw [due?, fresh.settled]
    exact .none
  · exact stand_enter (List.nil_append _).symm .nil

theorem Account.imp (account : Account made start past c parts here)
    (still : ∀ b a, made b a → made' b a) : Account made' start past c parts here := by
  obtain ⟨recalls, due, ⟨passed, stand⟩, history⟩ := account
  refine ⟨recalls, ?_, ⟨passed.imp fun e e' same => ⟨still _ _ same.1, same.2⟩, stand⟩, history⟩
  generalize c.due? = b, Deed.due? past = a at due ⊢
  cases due with
  | none => exact .none
  | some same => exact .some (still _ _ same)

theorem Account.fed (account : Account made start past c parts here) (batch : Batch) (w : World) :
    Account made start (.fed batch :: past) (c.feed batch w).1 parts here := by
  obtain ⟨⟨outstanding, -, given, earlyExit, metric⟩, due, ⟨passed, stand⟩, history⟩ := account
  exact ⟨⟨outstanding, rfl, given, earlyExit, metric⟩, due, ⟨passed, stand⟩, history⟩

theorem Offers.due (offers : Offers made c result c') (past : List (Deed α)) :
    Option.Rel made c'.due? (Deed.due? (.pulled result :: past)) := by
  cases offers with
  | ended w finished rows settled =>
    rw [due?, settled]
    exact .none
  | failed w fault rows settled =>
    rw [due?, settled]
    exact .none
  | @gave _ a b w same current rows outstanding =>
    have next : c'.due? = some b := by
      rw [due?, outstanding, if_pos rfl, Course.current?, rows]
      exact current
    rw [next]
    exact .some same

theorem Pulls.settled_eq (pulls : Pulls c result c') (settled : c.turn.outstanding = false) :
    c'.rows = c.rows ∧ c'.progress = c.progress := by
  have still (w : World) := advance_of_settled settled w
  cases pulls with
  | ended w => rw [still w]; exact ⟨rfl, rfl⟩
  | withheld w nothing => rw [still w]; exact ⟨rfl, rfl⟩
  | gave a w there => rw [still w]; exact ⟨rfl, rfl⟩

theorem Account.undue (account : Account made start past c parts here)
    (settled : c.turn.outstanding = false) : Deed.due? past = none := by
  have due := account.due
  rw [due?, settled, if_neg Bool.false_ne_true] at due
  generalize Deed.due? past = a at due ⊢
  cases due
  rfl

/-! ### One pull -/

inductive Grows {γ : Type} (parts : List (List γ)) (here : List γ) :
    Option γ → List (List γ) → List γ → Prop where
  | still : Grows parts here none parts here
  | within (e : γ) : Grows parts here (some e) parts (here ++ [e])
  | left (e : γ) : Grows parts here (some e) (parts ++ [here ++ [e]]) []

theorem Account.stepped {b : β} {a : α} (account : Account made start past c parts here)
    (current : c.current? = some b) (same : made b a) (due : Deed.due? past = some a)
    (step : Stepped c c' (c.results.best c.progress.metric))
    (recalls : Recalls start (.pulled result :: past) c')
    (next : Option.Rel made c'.due? (Deed.due? (.pulled result :: past))) :
    ∃ parts' here', Account made start (.pulled result :: past) c' parts' here' ∧
      Grows parts here (some (b, c.results)) parts' here' := by
  obtain ⟨earlier, -, ⟨passed, stand⟩, history⟩ := account
  obtain ⟨rows, history', -, -⟩ := step
  rw [history, earlier.earlyExit, earlier.metric] at rows history'
  have stood := stand_next c.results stand current rfl
  rw [← rows] at stood
  have grown : List.Forall₂ (fun e e' => made e.1 e'.1 ∧ e.2 = e'.2)
      (parts.flatten ++ here ++ [(b, c.results)]) (Deed.passed (.pulled result :: past)) := by
    rw [Deed.passed, due, earlier.results]
    exact List.rel_append passed (.cons ⟨same, rfl⟩ .nil)
  split at stood
  · next enters =>
    rw [if_pos enters] at history'
    exact ⟨_, _, ⟨recalls, next, ⟨by simpa using grown, stood⟩, history'⟩, .left _⟩
  · next stays =>
    rw [if_neg stays] at history'
    refine ⟨_, _, ⟨recalls, next, ⟨by simpa using grown, stood⟩, ?_⟩, .within _⟩
    rw [history', bestsOf_concat]

/-- A pull steps past the outstanding item, if any, and keeps account of it. -/
theorem Account.pulled (account : Account made start past c parts here)
    (pulls : Pulls c result c') (offers : Offers made c result c') :
    ∃ parts' here', Account made start (.pulled result :: past) c' parts' here' ∧
      Grows parts here (c.due?.map fun b => (b, c.results)) parts' here' := by
  have recalls := recalls_of_pulls account.recalls pulls
  have next := offers.due past
  -- Results that were fed without an item that is outstanding are not judged.
  cases outstanding : c.turn.outstanding with
  | false =>
    obtain ⟨rows, progress⟩ := pulls.settled_eq outstanding
    have still : c.due? = none := by rw [due?, outstanding, if_neg Bool.false_ne_true]
    rw [still]
    refine ⟨parts, here, ⟨recalls, next, ⟨?_, ?_⟩, ?_⟩, .still⟩
    · rw [Deed.passed, account.undue outstanding]
      simpa using account.standing.passed
    · rw [rows]
      exact account.standing.stand
    · rw [progress]
      exact account.history
  | true =>
    obtain ⟨b, current⟩ := Option.isSome_iff_exists.mp (account.recalls.given outstanding)
    have given : c.due? = some b := by rw [due?, outstanding, if_pos rfl, current]
    have due := account.due
    rw [given] at due
    generalize past' : Deed.due? past = a at due
    rw [given]
    cases due with
    | some same =>
      have step := stepped_pulls pulls outstanding current
      exact account.stepped current same past' step recalls next

/-- The history of a course is that of its row: the best values, in order, of those items that it
stepped past there and that have one. With early exit all of them have, and they rise. -/
def Remembers (made : β → α → Prop) (lists : List (List β)) (exit : Bool) (metric : String)
    (past : List (Deed α)) (c : Course β) : Prop :=
  ∃ parts here, Standing made lists exit metric past c parts here ∧
    c.progress.history = bestsOf metric here ∧
    (exit = true → c.progress.history.Pairwise (fun v v' => v.lt v' = true) ∧
      c.progress.history.length = here.length)

end Course

/-! ### Whole runs -/

section
variable {σ α β : Type} [Source σ α] {course : σ → Course β} {made : σ → β → α → Prop}
  {Good Fit : σ → Prop} {s : σ} {past : List (Deed α)} {begun : Course β}
  {parts : List (List (β × Batch))} {here : List (β × Batch)}

theorem Walks.account_pull (follows : Follows course Good) (walks : Walks course made Fit)
    (w : World) (good : Good s) (fit : Fit s)
    (account : Course.Account (made s) begun past (course s) parts here) :
    let pulled := Source.pull s w
    (Good pulled.source ∧ Fit pulled.source) ∧ ∃ parts' here',
      Course.Account (made pulled.source) begun (.pulled pulled.result :: past)
        (course pulled.source) parts' here' ∧
      Course.Grows parts here ((course s).due?.map fun b => (b, (course s).results))
        parts' here' := by
  obtain ⟨good', pulls⟩ := follows.pulled s w good
  obtain ⟨fit', offers⟩ := walks.pulled s w fit
  have still := account.imp (fun b a => walks.kept_pulled s w b a fit)
  exact ⟨⟨good', fit'⟩, still.pulled pulls offers⟩

theorem Walks.account_feed (follows : Follows course Good) (walks : Walks course made Fit)
    (batch : Batch) (w : World) (good : Good s) (fit : Fit s)
    (account : Course.Account (made s) begun past (course s) parts here) :
    let fed := (Source.feed s batch w).1
    (Good fed ∧ Fit fed) ∧
      Course.Account (made fed) begun (.fed batch :: past) (course fed) parts here := by
  obtain ⟨good', same⟩ := follows.fed s batch w good
  have still := account.imp (fun b a => walks.kept_fed s batch w b a fit)
  refine ⟨⟨good', (walks.fed s batch w fit).1⟩, ?_⟩
  rw [same]
  exact still.fed batch w

theorem Walks.account (follows : Follows course Good) (walks : Walks course made Fit) {start : σ}
    (good : Good start) (fit : Fit start) (fresh : (course start).Fresh)
    (reached : After start past s) :
    (Good s ∧ Fit s) ∧
      ∃ parts here, Course.Account (made s) (course start) past (course s) parts here := by
  induction reached with
  | start => exact ⟨⟨good, fit⟩, [], [], Course.account_start fresh⟩
  | pull _ w ih =>
    obtain ⟨⟨good, fit⟩, parts, here, account⟩ := ih
    obtain ⟨still, parts', here', account', -⟩ := walks.account_pull follows w good fit account
    exact ⟨still, parts', here', account'⟩
  | feed _ batch w ih =>
    obtain ⟨⟨good, fit⟩, parts, here, account⟩ := ih
    obtain ⟨still, account'⟩ := walks.account_feed follows batch w good fit account
    exact ⟨still, parts, here, account'⟩

theorem Walks.remembers (follows : Follows course Good) (walks : Walks course made Fit) {start : σ}
    (good : Good start) (fit : Fit start) (fresh : (course start).Fresh)
    (reached : After start past s) {lists : List (List β)}
    (rows : (course start).rows.lists = lists) :
    (course s).Remembers (made s) lists (course start).earlyExit (course start).progress.metric
      past := by
  obtain ⟨-, parts, here, account⟩ := walks.account follows good fit fresh reached
  subst rows
  refine ⟨parts, here, account.standing, account.history, ?_⟩
  intro early
  have goesOn := account.standing.stand.goesOn
  rw [early] at goesOn
  rw [account.history]
  exact Walk.rising_of_stops goesOn

end

theorem Rows.lists_filter {α : Type} (rows : Rows α) :
    rows.lists.filter (fun row => !row.isEmpty) = rows.lists := by
  rw [List.filter_eq_self]
  intro list member
  obtain ⟨row, -, rfl⟩ := List.mem_map.mp member
  rfl

theorem Strategy.Lays.lists_eq {strategy : Strategy} {lists : List (List Overrides)}
    (lays : strategy.Lays lists) :
    strategy.rows.lists = lists.filter (fun row => !row.isEmpty) := by
  cases lays with
  | grid sets =>
    have blocks : (Grid.rows sets).lists = _ := Rows.lists_ofBlocks Overrides.rowKey sets
    rw [← blocks, Rows.lists_filter]
    rfl
  | ladder counts batchSizes cpuOnly => exact Rows.lists_table_filter _ _ _

def LoadSweep.table (variant : String) (batchSizes concurrencies : List UInt32)
    (flags : Keyed String) : List (List Load) :=
  (batchSizes.map fun size => concurrencies.map fun concurrency =>
    (⟨variant, size, concurrency, flags⟩ : Load)).filter (fun row => !row.isEmpty)

theorem LoadSweep.lists_of (variant : String) (batchSizes concurrencies : List UInt32)
    (exit : Bool) (metric : String) (flags : Keyed String) :
    (Course.rows (LoadSweep.of variant batchSizes concurrencies exit metric flags)).lists =
      table variant batchSizes concurrencies flags := by
  change (LoadSweep.rows variant batchSizes concurrencies flags).lists = _
  rw [LoadSweep.rows, Rows.lists_table_filter, Series.toList_ofList]
  rfl

/-- Whatever is called on a load sweep or on a server sweep that walks, the history of values is that
of the row it stands in, also where pulls fail. -/
theorem history_of_row (exit : Bool) :
    (∀ (variant : String) (batchSizes concurrencies : List UInt32) (metric : String)
      (flags : Keyed String) (past : List (Deed Load)) (c : LoadSweep),
      After (LoadSweep.of variant batchSizes concurrencies exit metric flags) past c →
      c.Remembers Eq (LoadSweep.table variant batchSizes concurrencies flags) exit metric past) ∧
    ∀ (r : Resources) (m : Model) (strategy : Strategy) (lists : List (List Overrides)),
      strategy.Lays lists → ∀ (past : List (Deed Variant)) (s : ServerSweep),
      After (ServerSweep.of r m strategy exit) past s →
      s.course.Remembers s.Derived (lists.filter fun row => !row.isEmpty) exit r.plan.objective
        past := by
  constructor
  · intro variant batchSizes concurrencies metric flags past c reached
    exact Course.walks.remembers Course.follows trivial trivial ⟨rfl, rfl, rfl⟩ reached
      (LoadSweep.lists_of variant batchSizes concurrencies exit metric flags)
  · intro r m strategy lists lays past s reached
    have sweeps : ServerSweep.Sweeps r m (ServerSweep.of r m strategy exit) :=
      ⟨rfl, rfl, lays.adaptive⟩
    exact ServerSweep.walks.remembers ServerSweep.follows lays.adaptive sweeps ⟨rfl, rfl, rfl⟩
      reached lays.lists_eq

def throughput (value : Binary64) : Batch := [some ⟨[("perf_throughput", value)]⟩]

/-- Two client batch sizes with three concurrencies, in the second row after two loads; and two sets
of overrides in one row, of which the first was measured and the second is outstanding. -/
theorem history_of_row_rising :
    let five : Binary64 := ⟨0x4014000000000000⟩
    let seven : Binary64 := ⟨0x401c000000000000⟩
    let start : Driven LoadSweep Load :=
      ⟨LoadSweep.of "v" [1, 8] [1, 2, 4] true "perf_throughput" [], {}, []⟩
    let run := start.asks [.pull, .feed (throughput seven), .pull, .pull, .feed (throughput five),
      .pull, .feed (throughput seven), .pull]
    let r : Resources := ⟨{}, Repository.ofConfigs [("m", [("backend", .text "onnx")])], none⟩
    let first : Overrides := [(Overrides.batchSizeKey, .word 1)]
    let second : Overrides := [(Overrides.batchSizeKey, .word 2)]
    let sweep : Driven ServerSweep Variant :=
      ⟨ServerSweep.of r { name := "m" } (.grid (Grid.rows [first, second])) true, {}, []⟩
    let walk := sweep.asks [.pull, .feed (throughput five), .pull]
    run.source.progress.history = [five, seven] ∧
      run.source.Remembers Eq (LoadSweep.table "v" [1, 8] [1, 2, 4] []) true "perf_throughput"
        run.past ∧
      walk.source.course.progress.history = [five] ∧
      walk.source.course.Remembers walk.source.Derived [[first, second]] true "perf_throughput"
        walk.past := by
  intro five seven start run r first second sweep walk
  refine ⟨by decide +kernel, ?_, by decide +kernel, ?_⟩
  · exact (history_of_row true).1 "v" [1, 8] [1, 2, 4] "perf_throughput" [] run.past run.source
      (start.after_asks .start _)
  · exact (history_of_row true).2 r { name := "m" } (.grid (Grid.rows [first, second]))
      [[first, second]] (.grid _) walk.past walk.source (sweep.after_asks .start _)

end ServingSweep
