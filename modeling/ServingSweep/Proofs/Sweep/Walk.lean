import ServingSweep.Proofs.Sweep.Play
import ServingSweep.Proofs.Sweep.Rows
import ServingSweep.Sweep.Course

/-!
Walks over rows of items, as two nested loops without a cursor: each item is visited and gives a
value or none, and with early exit a value that is not above all earlier ones of the row ends it.
`walk_of_plays` shows that a course under a driver is such a walk.
-/

namespace ServingSweep

namespace Walk
variable {α β γ σ : Type}

def improves (earlier : List Binary64) : Option Binary64 → Bool
  | none => false
  | some value => earlier.all (·.lt value)

/-- Visits the items of a row in turn, up to the first whose value ends the row. -/
def row (exit : Bool) (visit : α → σ → Option Binary64 × σ) (earlier : List Binary64) :
    List α → σ → σ
  | [], s => s
  | a :: as, s =>
    let (value, s) := visit a s
    if exit && !improves earlier value then s else row exit visit (earlier ++ value.toList) as s

def rows (exit : Bool) (visit : α → σ → Option Binary64 × σ) (rows : List (List α)) (s : σ) : σ :=
  rows.foldl (fun s items => row exit visit [] items s) s

/-- A walk within its first row, after the values `earlier` of it. -/
def resume (exit : Bool) (visit : α → σ → Option Binary64 × σ) (earlier : List Binary64) :
    List (List α) → σ → σ
  | [], s => s
  | items :: rest, s => rows exit visit rest (row exit visit earlier items s)

variable {exit : Bool} {visit : α → σ → Option Binary64 × σ}

theorem resume_nil (lists : List (List α)) (s : σ) :
    resume exit visit [] lists s = rows exit visit lists s := by
  cases lists <;> rfl

/-- A visit to the current item leads to the position that a step past it leaves. -/
theorem resume_next {left : Rows α} {a : α} (given : left.current? = some a)
    {earlier : List Binary64} {s mid : σ} {value : Option Binary64}
    (visited : visit a s = (value, mid)) :
    resume exit visit earlier left.lists s =
      let stop := exit && !improves earlier value
      resume exit visit (if left.entersRow stop then [] else earlier ++ value.toList)
        (left.next stop).lists mid := by
  rcases left with _ | ⟨⟨head, tail⟩, rest⟩
  · cases given
  obtain rfl : head = a := Option.some.inj given
  simp only [Rows.lists_cons, resume, Row.toList, row, visited]
  cases tail with
  | nil => cases exit && !improves earlier value <;> exact (resume_nil _ _).symm
  | cons next tail =>
    cases exit && !improves earlier value with
    | true => exact (resume_nil _ _).symm
    | false => rfl

theorem rows_table (item : β → γ → α) (down : Series β) (across : List γ) (s : σ) :
    rows exit visit (Rows.table item down across).lists s =
      rows exit visit (down.toList.map (fun b => across.map (item b))) s := by
  cases across with
  | nil =>
    have idle : ∀ (bs : List β) (s : σ),
        rows exit visit (bs.map (fun _ => ([] : List α))) s = s := by
      intro bs
      induction bs with
      | nil => exact fun _ => rfl
      | cons b bs ih => exact ih
    exact (idle down.toList s).symm
  | cons c across => rw [Rows.lists_table]

/-- The visits of a walk come to a list of items with their results: the value of each item is
the best of its results. -/
def Visits (visit : α → σ → Option Binary64 × σ) (metric : String) :
    σ → List (α × Batch) → σ → Prop
  | s, [], s' => s = s'
  | s, (a, batch) :: t, s' =>
    ∃ mid, visit a s = (batch.best metric, mid) ∧ Visits visit metric mid t s'

end Walk

namespace Progress

/-- A step is an improvement if its best value is above all earlier ones. -/
theorem isImproving_record (p : Progress) (batch : Batch) :
    (p.record batch).1.isImproving = Walk.improves p.history (batch.best p.metric) := by
  unfold record
  cases batch.best p.metric with
  | none => rfl
  | some value =>
    simp only [judge, Walk.improves]
    cases p.history.all (·.lt value) <;> rfl

theorem record_history (p : Progress) (batch : Batch) :
    (p.record batch).2.history = p.history ++ (batch.best p.metric).toList := by
  unfold record
  cases batch.best p.metric with
  | none => exact (List.append_nil _).symm
  | some value => rfl

theorem record_metric (p : Progress) (batch : Batch) :
    (p.record batch).2.metric = p.metric := by
  unfold record
  split <;> rfl

end Progress

namespace Course
open Source Walk
variable {α : Type}

theorem stops_eq (c : Course α) :
    c.stops = (c.earlyExit && !improves c.progress.history (c.results.best c.progress.metric)) := by
  rw [stops, verdict, Progress.isImproving_record]

theorem judged_history (c : Course α) :
    c.judged.history = c.progress.history ++ (c.results.best c.progress.metric).toList := by
  unfold judged
  split <;> exact Progress.record_history _ _

theorem judged_metric (c : Course α) : c.judged.metric = c.progress.metric := by
  unfold judged
  split <;> exact Progress.record_metric _ _

/-- `c'` is `c` past its current item, the item having been worth `value`. -/
structure Stepped (c c' : Course α) (value : Option Binary64) : Prop where
  rows : c'.rows = c.rows.next (c.earlyExit && !improves c.progress.history value)
  history : c'.progress.history =
    if c.rows.entersRow (c.earlyExit && !improves c.progress.history value) then []
    else c.progress.history ++ value.toList
  earlyExit : c'.earlyExit = c.earlyExit
  metric : c'.progress.metric = c.progress.metric

/-- An outstanding item is stepped past with the best of the results at hand. -/
theorem stepped_advance {c : Course α} (outstanding : c.turn.outstanding = true) {a : α}
    (given : c.current? = some a) (w : World) :
    Stepped c (c.advance w).1 (c.results.best c.progress.metric) := by
  have walked : c.rows.isEmpty = false := by
    cases h : c.rows with
    | nil => rw [current?, h] at given; cases given
    | cons row rest => rfl
  unfold advance
  simp only [outstanding, if_true, step, walked, Bool.false_eq_true, if_false]
  refine ⟨congrArg c.rows.next (stops_eq c), ?_, rfl, ?_⟩
  · change (if c.rows.entersRow c.stops then c.judged.reset else c.judged).history = _
    rw [stops_eq]
    split
    · rfl
    · exact judged_history c
  · change (if c.rows.entersRow c.stops then c.judged.reset else c.judged).metric = _
    split <;> exact judged_metric c

theorem advance_of_settled {c : Course α} (settled : c.turn.outstanding = false) (w : World) :
    (c.advance w).1 = { c with turn := c.turn.pulled } := by
  unfold advance
  simp only [settled, Bool.false_eq_true, if_false]

theorem names_advance (c : Course α) (w : World) : (c.advance w).2.names = w.names := by
  obtain ⟨_, _, _, same⟩ := c.advance_eq
  rw [same]
  rfl

/-- What a pull gives is the current item of the course past the item before. -/
theorem pull_cases (c : Course α) (w : World) :
    ((c.advance w).1.current? = none ∧
      c.pull w = ⟨.ok none, (c.advance w).1.start, (c.advance w).2⟩) ∨
    ∃ a, (c.advance w).1.current? = some a ∧
      c.pull w = ⟨.ok (some a), (c.advance w).1.yielded, (c.advance w).2⟩ := by
  unfold pull
  dsimp only
  split
  · next finished => exact .inl ⟨finished, rfl⟩
  · next a given => exact .inr ⟨a, given, rfl⟩

/-- An item that is given out and fed once is worth the best of what was fed. -/
theorem stepped_fed {c : Course α} {a : α} (given : c.current? = some a) (batch : Batch)
    (w later : World) :
    Stepped c ((c.yielded.feed batch w).1.advance later).1 (batch.best c.progress.metric) := by
  have step := stepped_advance (c := (c.yielded.feed batch w).1) rfl given later
  exact ⟨step.rows, step.history, step.earlyExit, step.metric⟩

def walk {σ : Type} (c : Course α) (visit : α → σ → Option Binary64 × σ) : σ → σ :=
  resume c.earlyExit visit c.progress.history c.rows.lists

theorem walk_of_finished {σ : Type} {c : Course α} (finished : c.current? = none)
    (visit : α → σ → Option Binary64 × σ) (s : σ) : c.walk visit s = s := by
  have lists : c.rows.lists = [] := by
    cases h : c.rows with
    | nil => rfl
    | cons row rest => rw [current?, h] at finished; cases finished
  rw [walk, lists]
  rfl

theorem walk_stepped {σ : Type} {c c' : Course α} {a : α} (given : c.current? = some a)
    {visit : α → σ → Option Binary64 × σ} {s mid : σ} {value : Option Binary64}
    (visited : visit a s = (value, mid)) (step : Stepped c c' value) :
    c.walk visit s = c'.walk visit mid := by
  rw [walk, walk, resume_next given visited, step.rows, step.history, step.earlyExit]

/-- A course under a driver is a walk over its rows. -/
theorem walk_of_plays {σ : Type} {visit : α → σ → Option Binary64 × σ} {p : Pulled (Course α) α}
    {t : List (α × Batch)} {last : Course α} {later : World} (play : Plays p t last later) :
    ∀ {c : Course α} {w : World}, c.pull w = p → ∀ {s s' : σ},
      Visits visit (c.advance w).1.progress.metric s t s' → (c.advance w).1.walk visit s = s' := by
  induction play with
  | ended =>
    intro c w pulled s s' visits
    rcases pull_cases c w with ⟨finished, -⟩ | ⟨a, -, gives⟩
    · rw [walk_of_finished finished]
      exact visits
    · rw [gives] at pulled
      cases pulled
  | @item a batch source _ w₁ _ t _ ih =>
    intro c w pulled s s' visits
    rcases pull_cases c w with ⟨-, ends⟩ | ⟨b, given, gives⟩
    · rw [ends] at pulled
      cases pulled
    · rw [gives] at pulled
      cases pulled
      obtain ⟨mid, visited, visits⟩ := visits
      have step := stepped_fed given batch (c.advance w).2
        ((c.advance w).1.yielded.feed batch (c.advance w).2).2
      rw [walk_stepped given visited step]
      rw [← step.metric] at visits
      exact ih rfl visits

theorem world_pull (c : Course α) (w : World) : (c.pull w).world = (c.advance w).2 := by
  rcases pull_cases c w with ⟨-, same⟩ | ⟨a, -, same⟩ <;> rw [same]

theorem names_pull (c : Course α) (w : World) : (c.pull w).world.names = w.names := by
  rw [world_pull]
  exact names_advance c w

/-- A course names nothing. -/
theorem names_of_plays {p : Pulled (Course α) α} {t : List (α × Batch)} {last : Course α}
    {later : World} (play : Plays p t last later) : later.names = p.world.names := by
  induction play with
  | ended => rfl
  | item a batch _ ih => exact ih.trans (names_pull _ _)

end Course
end ServingSweep
