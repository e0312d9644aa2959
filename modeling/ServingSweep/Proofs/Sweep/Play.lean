import ServingSweep.Sweep.Source

/-!
Plays of a source: a driver pulls, answers the item it got with one batch of results, and pulls
again until the source ends. `exists_plays` shows that a finite source whose pulls do not fail
ends under every driver, `plays_unique` that it gives out the same items each time.
-/

namespace ServingSweep

/-- How a driver answers an item, in view of the items and answers before it. -/
abbrev Driver (α : Type) := List (α × Batch) → α → Batch

namespace Driver
variable {α : Type}

def Answers (d : Driver α) (seen : List (α × Batch)) : List (α × Batch) → Prop
  | [] => True
  | (a, batch) :: rest => batch = d seen a ∧ d.Answers (seen ++ [(a, batch)]) rest

theorem answers_append {d : Driver α} {seen front back : List (α × Batch)} :
    d.Answers seen (front ++ back) ↔ d.Answers seen front ∧ d.Answers (seen ++ front) back := by
  induction front generalizing seen with
  | nil => simp [Answers]
  | cons e front ih =>
    obtain ⟨a, batch⟩ := e
    simp only [List.cons_append, Answers, ih, and_assoc, List.append_assoc, List.nil_append]

end Driver

namespace Source
variable {σ α : Type} [Source σ α]

/-- From a pull on, the source gives out the items of a list, each answered with its batch before
the next pull, and then ends. -/
inductive Plays : Pulled σ α → List (α × Batch) → σ → World → Prop where
  | ended (s : σ) (w : World) : Plays ⟨.ok none, s, w⟩ [] s w
  | item (a : α) (batch : Batch) {s last : σ} {w later : World} {rest : List (α × Batch)}
      (further : Plays (pull (feed s batch w).1 (feed s batch w).2) rest last later) :
      Plays ⟨.ok (some a), s, w⟩ ((a, batch) :: rest) last later

theorem plays_unique {d : Driver α} {p : Pulled σ α} {seen t t' : List (α × Batch)} {s s' : σ}
    {w w' : World} (play : Plays p t s w) (play' : Plays p t' s' w')
    (answers : d.Answers seen t) (answers' : d.Answers seen t') : t = t' ∧ s = s' ∧ w = w' := by
  induction play generalizing seen t' with
  | ended => cases play'; exact ⟨rfl, rfl, rfl⟩
  | item a batch further ih =>
    cases play' with
    | item _ batch' further' =>
      obtain ⟨own, answers⟩ := answers
      obtain ⟨own', answers'⟩ := answers'
      obtain rfl : batch' = batch := own'.trans own.symm
      obtain ⟨same, states⟩ := ih further' answers answers'
      exact ⟨by rw [same], states⟩

/-! ### Calls in any order -/

/-- What was done to a source: a pull with its result, or results fed. -/
inductive Deed (α : Type) where
  | pulled (result : Except Fault (Option α))
  | fed (batch : Batch)

/-- What became of a source by calls in any order, each in a world of its own; the deeds are
listed the last first. -/
inductive After (start : σ) : List (Deed α) → σ → Prop where
  | start : After start [] start
  | pull {past : List (Deed α)} {s : σ} (before : After start past s) (w : World) :
      After start (.pulled (Source.pull s w).result :: past) (Source.pull s w).source
  | feed {past : List (Deed α)} {s : σ} (before : After start past s) (batch : Batch) (w : World) :
      After start (.fed batch :: past) (Source.feed s batch w).1

/-- Whatever was done to the source, its next pull does not fail. -/
def NeverFails (start : σ) : Prop :=
  ∀ (past : List (Deed α)) (s : σ) (w : World) (fault : Fault), After start past s →
    (Source.pull s w).result ≠ .error fault

theorem After.trans {start mid s : σ} {past later : List (Deed α)}
    (first : After start past mid) (second : After mid later s) :
    After start (later ++ past) s := by
  induction second with
  | start => exact first
  | pull before w ih => exact ih.pull w
  | feed before batch w ih => exact ih.feed batch w

theorem neverFails_of_after {start s : σ} {past : List (Deed α)} (sound : NeverFails start)
    (reached : After start past s) : NeverFails s :=
  fun _ _ w fault further => sound _ _ w fault (reached.trans further)

theorem neverFails_of_invariant {start : σ} (Good : σ → Prop) (initial : Good start)
    (pulled : ∀ s w, Good s → Good (Source.pull s w).source)
    (fed : ∀ s batch w, Good s → Good (Source.feed s batch w).1)
    (sound : ∀ s w fault, Good s → (Source.pull s w).result ≠ .error fault) : NeverFails start := by
  intro past s w fault reached
  have good : Good s := by
    induction reached with
    | start => exact initial
    | pull before w ih => exact pulled _ w ih
    | feed before batch w ih => exact fed _ batch w ih
  exact sound s w fault good

end Source

namespace FiniteSource
variable {σ α : Type} [FiniteSource σ α]
open Source

/-- A source without faults ends under every driver. -/
theorem exists_plays (d : Driver α) (s : σ) (w : World) (seen : List (α × Batch))
    (sound : NeverFails s) :
    ∃ t last later, Plays (pull s w) t last later ∧ d.Answers seen t := by
  generalize bound : ahead s = n
  induction n using Nat.strongRecOn generalizing s w seen with
  | ind n ih =>
    have reached : After s [.pulled (pull s w).result] (pull s w).source := After.start.pull w
    match h : pull s w with
    | ⟨.error fault, s', w'⟩ =>
      exact absurd (by rw [h]) (sound [] s w fault .start)
    | ⟨.ok none, s', w'⟩ => exact ⟨[], s', w', .ended s' w', trivial⟩
    | ⟨.ok (some a), s', w'⟩ =>
      have fewer := ahead_pull_lt s w a (by rw [h])
      rw [h] at fewer reached
      change ahead s' < _ at fewer
      have still := ahead_feed_le s' (d seen a) w'
      obtain ⟨t, last, later, play, answers⟩ := ih _ (by omega) (feed s' (d seen a) w').1
        (feed s' (d seen a) w').2 (seen ++ [(a, d seen a)])
        (neverFails_of_after sound (reached.feed (d seen a) w')) rfl
      exact ⟨_, last, later, .item a (d seen a) play, rfl, answers⟩

end FiniteSource

end ServingSweep
