import ServingSweep.Proofs.Sweep.Feedback

/-!
Whose turn it is in a sweep. `TakesTurns` says how pulls and results show in the turn of a source:
load sweeps and server sweeps of every strategy keep theirs alike, also when a pull fails.
-/

namespace ServingSweep
open Source

namespace Source.Deed
variable {α : Type}

def given : List (Deed α) → List α
  | [] => []
  | .pulled (.ok (some a)) :: past => given past ++ [a]
  | .pulled _ :: past => given past
  | .fed _ :: past => given past

theorem given_rested {result : Except Fault (Option α)} (nothing : ∀ a, result ≠ .ok (some a))
    (past : List (Deed α)) : given (.pulled result :: past) = given past := by
  rcases result_cases nothing with rfl | ⟨fault, rfl⟩ <;> rfl

def feeds : List (Deed α) → Nat
  | [] => 0
  | .fed _ :: past => feeds past + 1
  | .pulled _ :: past => feeds past

/-- How often results were fed while nothing was outstanding. -/
def strays : List (Deed α) → Nat
  | [] => 0
  | .fed _ :: past => strays past + (if outstanding past then 0 else 1)
  | .pulled _ :: past => strays past

end Source.Deed

namespace Turn

theorem violations_pulled {t : Turn} (reported : t.unreported = false) :
    t.pulled.violations = t.violations := by
  simp [pulled, reported]

theorem violations_accepted {t : Turn} (expected : t.unexpected = false) :
    t.accepted.violations = t.violations := by
  simp [accepted, expected]

theorem unreported_of_settled {t : Turn} (settled : t.outstanding = false) :
    t.unreported = false := by
  simp [unreported, settled]

end Turn

/-- The turn of a source through its calls: an item that is given out is outstanding, a pull without
one settles the turn. -/
structure TakesTurns {σ α : Type} [Source σ α] (turn : σ → Turn) : Prop where
  gave : ∀ {s w a}, (Source.pull s w).result = .ok (some a) →
    turn (Source.pull s w).source = (turn s).pulled.yielded
  rested : ∀ {s w}, (∀ a, (Source.pull s w).result ≠ .ok (some a)) →
    ∃ started, turn (Source.pull s w).source = { (turn s).pulled with started := started }
  fed : ∀ s batch w, turn (Source.feed s batch w).1 = (turn s).accepted

namespace Course
variable {α : Type}

theorem takesTurns : TakesTurns (fun c : Course α => c.turn) := by
  refine ⟨?_, ?_, fun _ _ _ => rfl⟩
  · intro c w a given
    change (c.pull w).result = _ at given
    change (c.pull w).source.turn = _
    rcases pull_cases c w with ⟨-, same⟩ | ⟨b, -, same⟩
    · rw [same] at given
      cases given
    · rw [same, ← turn_advance c w]
      rfl
  · intro c w nothing
    change ∀ a, (c.pull w).result ≠ _ at nothing
    change ∃ started, (c.pull w).source.turn = _
    rcases pull_cases c w with ⟨-, same⟩ | ⟨b, -, same⟩
    · rw [same, ← turn_advance c w]
      exact ⟨true, rfl⟩
    · exact absurd (by rw [same]) (nothing b)

end Course

namespace ServerSweep

theorem takesTurns : TakesTurns (fun s : ServerSweep => s.course.turn) := by
  have advanced (s : ServerSweep) (w : World) :
      (s.advance w).1.course.turn = s.course.turn.pulled :=
    Course.turn_advance s.course w
  refine ⟨?_, ?_, fun _ _ _ => rfl⟩
  · intro s w v given
    change (s.pull w).result = _ at given
    change (s.pull w).source.course.turn = _
    rw [← advanced s w]
    rcases outcome_pull s w with ⟨-, result⟩ | ⟨outcome, -⟩
    · rw [result] at given
      cases given
    · revert outcome given
      generalize s.pull w = pulled
      intro given outcome
      cases outcome with
      | withheld result later nothing => exact absurd given (nothing v)
      | given base variant later walked => rfl
  · intro s w nothing
    change ∀ a, (s.pull w).result ≠ _ at nothing
    change ∃ started, (s.pull w).source.course.turn = _
    rw [← advanced s w]
    rcases outcome_pull s w with ⟨source, -⟩ | ⟨outcome, -⟩
    · rw [source]
      exact ⟨_, rfl⟩
    · revert outcome nothing
      generalize s.pull w = pulled
      intro nothing outcome
      cases outcome with
      | withheld result later _ => exact ⟨true, rfl⟩
      | given base variant later walked => exact absurd rfl (nothing variant)

end ServerSweep

end ServingSweep
