import ServingSweep.Proofs.Sweep.Offers
import ServingSweep.Proofs.Sweep.Worlds

/-!
The phases of a source. `Ages` says what one call does to the phase, in any state, and
`Ages.oneWay` what follows for calls in any order: a source never goes back, and its end is final.
Every pull may find another repository, so any of them may fail.
-/

namespace ServingSweep
namespace Source
variable {σ α : Type} [Source σ α] {restock : Repository → σ → σ} {start s later : σ}
  {past more : List (Deed α)}

theorem phase_eq_notStarted : phase s = .notStarted ↔ started s = false := by
  unfold phase
  cases started s <;> cases done s <;> decide

theorem phase_eq_done (begun : done s = true → started s = true) :
    phase s = .done ↔ done s = true := by
  unfold phase
  cases finished : done s with
  | true =>
    rw [begun finished]
    decide
  | false => cases started s <;> decide

theorem rank_phase_le (started : started s = true → started later = true)
    (done : done s = true → done later = true) : (phase s).rank ≤ (phase later).rank := by
  unfold phase
  revert started done
  cases Source.started s <;> cases Source.started later <;> cases Source.done s <;>
    cases Source.done later <;> decide

/-- Calls in any order, each pull with a repository and in a world of its own; the last comes
first. -/
inductive Lived (restock : Repository → σ → σ) (start : σ) : List (Deed α) → σ → Prop where
  | start : Lived restock start [] start
  | pull {past : List (Deed α)} {s : σ} (before : Lived restock start past s)
      (repository : Repository) (w : World) :
      Lived restock start (.pulled (Source.pull (restock repository s) w).result :: past)
        (Source.pull (restock repository s) w).source
  | feed {past : List (Deed α)} {s : σ} (before : Lived restock start past s) (batch : Batch)
      (w : World) : Lived restock start (.fed batch :: past) (Source.feed s batch w).1

/-- A pull gives nothing and asks nobody: no repository has a part in it, no call is made to the
server and no name is issued. -/
structure Idle (restock : Repository → σ → σ) (s : σ) (w : World) : Prop where
  ended : (Source.pull s w).result = .ok none
  alone : ∀ repository, Source.pull (restock repository s) w =
    ⟨.ok none, restock repository (Source.pull s w).source, (Source.pull s w).world⟩
  calls : (Source.pull s w).world.calls = w.calls
  names : (Source.pull s w).world.names = w.names

structure Ages (restock : Repository → σ → σ) : Prop where
  restocked : ∀ repository s,
    started (restock repository s) = started s ∧ done (restock repository s) = done s
  pulled : ∀ (s : σ) w, started (Source.pull s w).source = true ∧
    ((Source.pull s w).result = .ok none → done (Source.pull s w).source = true)
  fed : ∀ (s : σ) batch w, started (Source.feed s batch w).1 = started s ∧
    done (Source.feed s batch w).1 = done s
  begun : ∀ s : σ, done s = true → started s = true
  idles : ∀ (s : σ) w, done s = true → Idle restock s w

structure OneWay (restock : Repository → σ → σ) (start : σ) : Prop where
  fresh : ∀ {past s}, Lived restock start past s →
    (phase s = .notStarted ↔ Deed.pulls past = 0)
  forward : ∀ {past s more later}, Lived restock start past s → Lived restock s more later →
    (phase s).rank ≤ (phase later).rank
  ended : ∀ {past s}, Lived restock start past s → .pulled (.ok none) ∈ past → phase s = .done
  final : ∀ {past s more later}, Lived restock start past s → phase s = .done →
    Lived restock s more later →
    phase later = .done ∧ (∀ result, .pulled result ∈ more → result = .ok none) ∧
      ∀ w, Idle restock later w

theorem Ages.started_eq (ages : Ages restock) (reached : Lived restock start past s) :
    started s = (started start || decide (Deed.pulls past ≠ 0)) := by
  induction reached with
  | start => exact (Bool.or_false _).symm
  | pull _ repository w => exact (ages.pulled _ w).1.trans (Bool.or_true _).symm
  | feed _ batch w ih => exact (ages.fed _ batch w).1.trans ih

/-- What is done stays done, and all its pulls are idle. -/
theorem Ages.done_of_lived (ages : Ages restock) (finished : done start = true)
    (reached : Lived restock start past s) :
    done s = true ∧ ∀ result, .pulled result ∈ past → result = .ok none := by
  induction reached with
  | start => exact ⟨finished, fun _ member => absurd member List.not_mem_nil⟩
  | @pull past s _ repository w ih =>
    have still := (ages.restocked repository s).2.trans ih.1
    have ended := (ages.idles _ w still).ended
    refine ⟨(ages.pulled _ w).2 ended, ?_⟩
    intro result member
    rcases List.mem_cons.mp member with same | earlier
    · exact (Deed.pulled.inj same).trans ended
    · exact ih.2 result earlier
  | feed _ batch w ih =>
    refine ⟨(ages.fed _ batch w).2.trans ih.1, ?_⟩
    intro result member
    rcases List.mem_cons.mp member with same | earlier
    · cases same
    · exact ih.2 result earlier

theorem Ages.done_of_ended (ages : Ages restock) (reached : Lived restock start past s)
    (ended : .pulled (.ok none) ∈ past) : done s = true := by
  induction reached with
  | start => cases ended
  | @pull past s _ repository w ih =>
    rcases List.mem_cons.mp ended with same | earlier
    · exact (ages.pulled _ w).2 (Deed.pulled.inj same).symm
    · have still := (ages.restocked repository s).2.trans (ih earlier)
      exact (ages.pulled _ w).2 (ages.idles _ w still).ended
  | feed _ batch w ih =>
    rcases List.mem_cons.mp ended with same | earlier
    · cases same
    · exact (ages.fed _ batch w).2.trans (ih earlier)

theorem Ages.oneWay (ages : Ages restock) (fresh : started start = false) :
    OneWay restock start where
  fresh reached := by
    rw [phase_eq_notStarted, ages.started_eq reached, fresh]
    simp
  forward _ further := rank_phase_le
    (fun begun => by rw [ages.started_eq further, begun, Bool.true_or])
    (fun finished => (ages.done_of_lived finished further).1)
  ended reached ended := (phase_eq_done (ages.begun _)).mpr (ages.done_of_ended reached ended)
  final _ finished further := by
    obtain ⟨still, pulls⟩ := ages.done_of_lived ((phase_eq_done (ages.begun _)).mp finished) further
    exact ⟨(phase_eq_done (ages.begun _)).mpr still, pulls, fun w => ages.idles _ w still⟩

end Source
open Source

/-! ### Sweeps -/

theorem Course.ages {α : Type} : Ages (fun _ c => c : Repository → Course α → Course α) where
  restocked _ _ := ⟨rfl, rfl⟩
  pulled c w := by
    change (c.pull w).source.turn.started = true ∧
      ((c.pull w).result = .ok none → (c.pull w).source.isDone = true)
    rcases pull_cases c w with ⟨finished, same⟩ | ⟨a, -, same⟩
    · rw [same]
      refine ⟨rfl, fun _ => ?_⟩
      change (true && (c.advance w).1.rows.isEmpty) = true
      rw [Rows.eq_nil_of_current? finished]
      rfl
    · rw [same]
      exact ⟨rfl, fun impossible => nomatch impossible⟩
  fed _ _ _ := ⟨rfl, rfl⟩
  begun c finished := by
    change c.isDone = true at finished
    rw [isDone, Bool.and_eq_true] at finished
    exact finished.1
  idles c w finished := by
    change c.isDone = true at finished
    rw [isDone, Bool.and_eq_true] at finished
    have rows := rows_advance_of_nil (Series.isEmpty_iff.mp finished.2) w
    have ended : (c.pull w).result = .ok none := by
      rcases pull_cases c w with ⟨-, same⟩ | ⟨a, given, -⟩
      · rw [same]
      · rw [current?, rows] at given
        cases given
    exact ⟨ended, fun _ => by rw [← ended]; rfl, calls_pull c w, names_pull c w⟩

namespace ServerSweep

theorem done_advance {s : ServerSweep} (finished : s.isDone = true) (w : World) :
    (s.advance w).1.isDone = true := by
  unfold isDone at finished ⊢
  rw [started_advance, Bool.and_eq_true] at *
  refine ⟨finished.1, ?_⟩
  rw [Bool.or_eq_true] at *
  refine finished.2.imp id (fun walked => ?_)
  exact Series.isEmpty_iff.mpr (Course.rows_advance_of_nil (Series.isEmpty_iff.mp walked) w)

theorem started_pull (s : ServerSweep) (w : World) :
    (s.pull w).source.course.turn.started = true := by
  unfold pull
  dsimp only
  split
  · next finished =>
    rw [isDone, Bool.and_eq_true] at finished
    exact finished.1
  · have outcome := outcome_current (s.advance w).1.start (s.advance w).2
    revert outcome
    generalize (s.advance w).1.start.current (s.advance w).2 = pulled
    intro outcome
    cases outcome with
    | withheld result later nothing => rfl
    | given base variant later walked => rfl

theorem done_of_ended {s : ServerSweep} {w : World} (ended : (s.pull w).result = .ok none) :
    (s.pull w).source.isDone = true := by
  have begun := started_pull s w
  have kept := (continues_pull s w).strategy
  rw [isDone, begun, kept, Bool.true_and, Bool.or_eq_true]
  cases adaptive : s.strategy.isAdaptive with
  | false => exact .inl rfl
  | true =>
    right
    rcases pull_adaptive adaptive w with ⟨finished, last, left, same⟩ | ⟨o, given, same⟩
    · have rows : last.course.rows = (s.advance w).1.course.rows := by
        rcases left with rfl | rfl <;> rfl
      rw [same, rows, Rows.eq_nil_of_current? finished]
      rfl
    · rw [same] at ended
      rcases offer_cases (s.advance w).1.start o (s.advance w).2 with
        ⟨fault, later, -, failed⟩ | ⟨base, -, later, later', gave⟩
      · rw [failed] at ended
        cases ended
      · rw [gave] at ended
        cases ended

theorem ages : Ages stocked where
  restocked _ _ := ⟨rfl, rfl⟩
  pulled s w := ⟨started_pull s w, done_of_ended⟩
  fed _ _ _ := ⟨rfl, rfl⟩
  begun s finished := by
    change s.isDone = true at finished
    rw [isDone, Bool.and_eq_true] at finished
    exact finished.1
  idles s w finished := by
    have ends (repository : Repository) : (s.stocked repository).pull w =
        ⟨.ok none, (s.advance w).1.stocked repository, (s.advance w).2⟩ :=
      if_pos (done_advance finished w)
    have same : s.pull w = ⟨.ok none, (s.advance w).1, (s.advance w).2⟩ :=
      if_pos (done_advance finished w)
    refine ⟨congrArg Pulled.result same, ?_, ?_, ?_⟩
    · intro repository
      change (s.stocked repository).pull w =
        ⟨.ok none, (s.pull w).source.stocked repository, (s.pull w).world⟩
      rw [same]
      exact ends repository
    · change (s.pull w).world.calls = w.calls
      rw [same]
      exact Course.calls_advance s.course w
    · change (s.pull w).world.names = w.names
      rw [same]
      exact Course.names_advance s.course w

end ServerSweep
end ServingSweep
