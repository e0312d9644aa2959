import ServingSweep.Proofs.Sweep.Walk

/-!
Courses without early exit. What is fed to such a course never matters: each pull gives out the
first of the items that are `coming`, whatever was fed, and no row is reported to end early.
-/

namespace ServingSweep

def Event.isNotice : Event → Bool
  | .plateaued _ _ | .unmeasured _ _ => true
  | _ => false

/-- No row was reported to end early. -/
def World.Calm (w : World) : Prop := ∀ e ∈ w.log, e.isNotice = false

namespace World
variable {w : World}

theorem calm_say (calm : w.Calm) {e : Event} (plain : e.isNotice = false) : (w.say e).Calm := by
  intro e' member
  rw [say_log, List.mem_append, List.mem_singleton] at member
  rcases member with earlier | rfl
  · exact calm e' earlier
  · exact plain

theorem calm_sayAll (calm : w.Calm) {es : List Event} (plain : ∀ e ∈ es, e.isNotice = false) :
    (w.sayAll es).Calm := by
  intro e member
  rw [sayAll_log, List.mem_append] at member
  rcases member with earlier | new
  · exact calm e earlier
  · exact plain e new

end World

namespace Turn

theorem plain_pullEvents (t : Turn) (owner : String) :
    ∀ e ∈ t.pullEvents owner, e.isNotice = false := by
  unfold pullEvents
  split <;> simp [Event.isNotice]

theorem plain_feedEvents (t : Turn) (owner : String) :
    ∀ e ∈ t.feedEvents owner, e.isNotice = false := by
  unfold feedEvents
  split
  · simp [Event.isNotice]
  · split <;> simp [Event.isNotice]

end Turn

/-- A step that stops nothing drops the current item. -/
theorem Rows.items_next {α : Type} (rows : Rows α) : (rows.next false).items = rows.items.tail := by
  rcases rows with _ | ⟨⟨head, _ | ⟨a, tail⟩⟩, rest⟩ <;> rfl

namespace Course
variable {α : Type}

def coming (c : Course α) : List α :=
  if c.turn.outstanding then c.rows.items.tail else c.rows.items

theorem coming_of_settled {c : Course α} (settled : c.turn.outstanding = false) :
    c.coming = c.rows.items := by
  rw [coming, settled]
  rfl

theorem items_advance {c : Course α} (patient : c.earlyExit = false) (w : World) :
    (c.advance w).1.rows.items = c.coming := by
  have goesOn : ({ c with turn := c.turn.pulled } : Course α).stops = false := by
    simp only [stops, patient, Bool.false_and]
  unfold advance coming
  dsimp only
  split
  · unfold step
    split
    · next empty => rw [Series.isEmpty_iff.mp empty]; rfl
    · rw [goesOn]
      exact Rows.items_next c.rows
  · rfl

theorem patient_advance {c : Course α} (patient : c.earlyExit = false) (w : World) :
    (c.advance w).1.earlyExit = false := by
  unfold advance step
  dsimp only
  split
  · split <;> exact patient
  · exact patient

theorem calm_advance {c : Course α} (patient : c.earlyExit = false) {w : World} (calm : w.Calm) :
    (c.advance w).2.Calm := by
  have told := w.calm_sayAll calm (c.turn.plain_pullEvents c.owner)
  have goesOn : ({ c with turn := c.turn.pulled } : Course α).notice? = none := by
    simp only [notice?, stops, patient, Bool.false_and, Bool.false_eq_true, if_false]
  unfold advance step
  dsimp only
  split
  · split
    · exact told
    · rw [goesOn]
      exact told
  · exact told

/-- A pull gives out the first of the coming items and leaves the others, whatever was fed. -/
theorem pull_patient {c : Course α} (patient : c.earlyExit = false) (w : World) :
    (c.pull w).result = .ok c.coming.head? ∧ (c.pull w).source.coming = c.coming.tail ∧
      (c.pull w).source.earlyExit = false ∧ (w.Calm → (c.pull w).world.Calm) := by
  have items := items_advance patient w
  have still := patient_advance patient w
  have settled := outstanding_advance c w
  have first : (c.advance w).1.current? = c.coming.head? := by
    rw [current?, Rows.current?_eq, items]
  rcases pull_cases c w with ⟨finished, same⟩ | ⟨a, given, same⟩
  · rw [finished] at first
    rw [same]
    refine ⟨congrArg _ first, ?_, still, calm_advance patient⟩
    rw [coming_of_settled (c := (c.advance w).1.start) settled]
    change (c.advance w).1.rows.items = _
    rw [items, List.head?_eq_none_iff.mp first.symm]
    rfl
  · rw [given] at first
    rw [same]
    exact ⟨congrArg _ first, congrArg List.tail items, still, calm_advance patient⟩

theorem calm_feed (c : Course α) (batch : Batch) {w : World} (calm : w.Calm) :
    (c.feed batch w).2.Calm :=
  w.calm_sayAll calm (c.turn.plain_feedEvents c.owner)

end Course
end ServingSweep
