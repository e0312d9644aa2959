import ServingSweep.Sweep.Progress
import ServingSweep.Sweep.Rows
import ServingSweep.Sweep.Source
import ServingSweep.Sweep.Turn

/-!
# Courses

A course is a walk over rows that its results steer. A pull first steps past the
item given out before: its results are judged, and with early exit a step that is
no improvement ends the row. Judged are the results fed last; without any, nothing
was measured.
-/

namespace ServingSweep

structure Course (α : Type) where
  /-- Whose walk it is, in reports. -/
  owner : String
  rows : Rows α
  earlyExit : Bool
  progress : Progress
  turn : Turn := {}
  /-- The results to judge at the next step. -/
  results : Batch := []

namespace Course

variable {α : Type}

def isDone (c : Course α) : Bool := c.turn.started && c.rows.isEmpty

def current? (c : Course α) : Option α := c.rows.current?

/-! ### Stepping -/

def verdict (c : Course α) : Verdict := (c.progress.record c.results).1

/-- Whether the current item ends its row early. -/
def stops (c : Course α) : Bool := c.earlyExit && !c.verdict.isImproving

def notice? (c : Course α) : Option Event :=
  if c.stops then c.progress.notice? c.verdict else none

def judged (c : Course α) : Progress :=
  let recorded := (c.progress.record c.results).2
  if c.stops then recorded.stopped c.verdict else recorded

/-- Steps past the current item. Where nothing is walked, nothing is judged. -/
def step (c : Course α) (w : World) : Course α × World :=
  if c.rows.isEmpty then ({ c with results := [] }, w)
  else
    ({ c with rows := c.rows.next c.stops
              progress := if c.rows.entersRow c.stops then c.judged.reset else c.judged
              results := [] },
      w.sayAll c.notice?.toList)

def advance (c : Course α) (w : World) : Course α × World :=
  let pulled := { c with turn := c.turn.pulled }
  let w := w.sayAll (c.turn.pullEvents c.owner)
  if c.turn.outstanding then pulled.step w else (pulled, w)

def yielded (c : Course α) : Course α := { c with turn := c.turn.yielded }

def start (c : Course α) : Course α := { c with turn := c.turn.start }

/-! ### Pulling and feeding -/

def pull (c : Course α) (w : World) : Pulled (Course α) α :=
  let (c, w) := c.advance w
  match c.current? with
  | none => ⟨.ok none, c.start, w⟩
  | some a => ⟨.ok (some a), c.yielded, w⟩

def feed (c : Course α) (batch : Batch) (w : World) : Course α × World :=
  ({ c with turn := c.turn.accepted, results := batch }, w.sayAll (c.turn.feedEvents c.owner))

def ahead (c : Course α) : Nat := c.rows.left - (if c.turn.outstanding then 1 else 0)

theorem left_advance_le (c : Course α) (w : World) : (c.advance w).1.rows.left ≤ c.ahead := by
  have shorter := Rows.left_next_le c.rows
  unfold advance ahead
  dsimp only
  split
  · unfold step
    dsimp only
    split
    · next empty => rw [Series.isEmpty_iff.1 empty]; exact Nat.zero_le _
    · exact shorter _
  · exact Nat.le_refl _

/-- Stepping past an item changes no more of a course than its place, its progress, its turn and
the results at hand, whatever the world is, and of the world only the log. -/
theorem advance_eq (c : Course α) : ∃ rows progress events, ∀ w : World, c.advance w =
    ({ c with turn := c.turn.pulled
              rows := rows
              progress := progress
              results := if c.turn.outstanding then [] else c.results },
      (w.sayAll (c.turn.pullEvents c.owner)).sayAll events) := by
  unfold advance step
  dsimp only
  split
  · split
    · exact ⟨c.rows, c.progress, [], fun _ => rfl⟩
    · exact ⟨_, _, _, fun _ => rfl⟩
  · exact ⟨c.rows, c.progress, [], fun _ => rfl⟩

theorem turn_advance (c : Course α) (w : World) : (c.advance w).1.turn = c.turn.pulled := by
  obtain ⟨_, _, _, same⟩ := c.advance_eq
  rw [same]

theorem outstanding_advance (c : Course α) (w : World) :
    (c.advance w).1.turn.outstanding = false := by
  rw [turn_advance]
  rfl

theorem started_advance (c : Course α) (w : World) :
    (c.advance w).1.turn.started = c.turn.started := by
  rw [turn_advance]
  rfl

theorem ahead_feed (c : Course α) (batch : Batch) (w : World) :
    (c.feed batch w).1.ahead = c.ahead := rfl

theorem rows_pull (c : Course α) (w : World) : (c.pull w).source.rows = (c.advance w).1.rows := by
  unfold pull
  dsimp only
  split <;> rfl

theorem ahead_pull_le (c : Course α) (w : World) : (c.pull w).source.ahead ≤ c.ahead := by
  refine Nat.le_trans (Nat.sub_le _ _) ?_
  rw [rows_pull]
  exact left_advance_le c w

theorem ahead_pull_lt (c : Course α) (w : World) (a : α)
    (given : (c.pull w).result = .ok (some a)) :
    (c.pull w).source.ahead < c.ahead := by
  refine Nat.lt_of_lt_of_le ?_ (left_advance_le c w)
  unfold pull at given ⊢
  dsimp only at given ⊢
  split at given
  · cases given
  · next found => exact Nat.sub_lt (Rows.left_pos found) Nat.one_pos

instance : FiniteSource (Course α) α where
  pull := pull
  feed := feed
  started c := c.turn.started
  done := isDone
  ahead := ahead
  ahead_pull_le := ahead_pull_le
  ahead_pull_lt := ahead_pull_lt
  ahead_feed_le c batch w := Nat.le_of_eq (ahead_feed c batch w)

end Course

end ServingSweep
