import Mathlib.Data.List.Induction
import ServingSweep.Proofs.Trial.Reading

/-!
Trials under marks in any order. The last mark sets the status, but only a completion sets the
result: a trial gives the metrics of its last completion, also when it was begun again or failed
since.
-/

namespace ServingSweep.Trial

inductive Mark where
  | begun (now : Instant)
  | completed (now : Instant) (metrics : Metrics)
  | failed (now : Instant) (reason : String)

namespace Mark

def status : Mark → Status
  | begun _ => .running
  | completed _ _ => .completed
  | failed _ _ => .failed

def metrics? : Mark → Option Metrics
  | completed _ metrics => some metrics
  | begun _ | failed _ _ => none

theorem metrics?_isSome (m : Mark) : m.metrics?.isSome = true ↔ m.status = .completed := by
  cases m <;> simp [metrics?, status]

end Mark

def mark (t : Trial) : Mark → Trial
  | .begun now => t.begin now
  | .completed now metrics => t.complete now metrics
  | .failed now reason => t.fail now reason

def marked (t : Trial) (marks : List Mark) : Trial := marks.foldl mark t

def lastMetrics? (marks : List Mark) : Option Metrics := (marks.filterMap Mark.metrics?).getLast?

variable {t : Trial}

/-! ### One mark -/

theorem status_mark (m : Mark) : (t.mark m).status = m.status := by
  cases m <;> rfl

theorem result_mark (m : Mark) : (t.mark m).result = m.metrics?.or t.result := by
  cases m <;> rfl

/-! ### All marks -/

theorem marked_concat (marks : List Mark) (m : Mark) :
    t.marked (marks ++ [m]) = (t.marked marks).mark m :=
  List.foldl_append

theorem status_marked (marks : List Mark) :
    (t.marked marks).status = (marks.getLast?.map Mark.status).getD t.status := by
  induction marks using List.reverseRecOn with
  | nil => rfl
  | append_singleton marks m _ =>
    rw [marked_concat, status_mark, List.getLast?_concat, Option.map_some, Option.getD_some]

theorem lastMetrics?_concat (marks : List Mark) (m : Mark) :
    lastMetrics? (marks ++ [m]) = m.metrics?.or (lastMetrics? marks) := by
  rw [lastMetrics?, List.filterMap_append, List.getLast?_append, lastMetrics?]
  cases m <;> rfl

theorem result_marked (marks : List Mark) :
    (t.marked marks).result = (lastMetrics? marks).or t.result := by
  induction marks using List.reverseRecOn with
  | nil => rfl
  | append_singleton marks m ih =>
    rw [marked_concat, result_mark, ih, lastMetrics?_concat, Option.or_assoc]

theorem lastMetrics?_eq_none_iff {marks : List Mark} :
    lastMetrics? marks = none ↔ ∀ m ∈ marks, m.status ≠ .completed := by
  rw [lastMetrics?, List.getLast?_eq_none_iff, List.filterMap_eq_nil_iff]
  refine forall₂_congr fun m _ => ?_
  rw [ne_eq, ← m.metrics?_isSome, Option.not_isSome_iff_eq_none]

/-- A trial that stands completed was completed. -/
theorem exists_of_status_marked {marks : List Mark} (pending : t.status = .pending)
    (stands : (t.marked marks).status = .completed) : ∃ m, lastMetrics? marks = some m := by
  rw [status_marked, pending] at stands
  induction marks using List.reverseRecOn with
  | nil => cases stands
  | append_singleton marks m _ =>
    rw [List.getLast?_concat] at stands
    obtain ⟨metrics, brought⟩ := Option.isSome_iff_exists.mp (m.metrics?_isSome.mpr stands)
    exact ⟨metrics, by rw [lastMetrics?_concat, brought, Option.some_or]⟩

/-- Whatever marks a trial was given, it gives the metrics of its last completion. They are those of
its status when it stands completed; when it does not, it gives none exactly if it never was. -/
theorem gives_last_completion (id : Uuid) (probe : Probe) (created : Instant) (marks : List Mark) :
    let t := ({ id, probe, created } : Trial).marked marks
    t.status = (marks.getLast?.map Mark.status).getD .pending ∧
      t.batch = [lastMetrics? marks] ∧
      (t.status = .completed → ∃ m, lastMetrics? marks = some m ∧ t.batch = [some m]) ∧
      (t.status ≠ .completed → (t.batch = [none] ↔ ∀ m ∈ marks, m.status ≠ .completed)) := by
  intro t
  have batch : t.batch = [lastMetrics? marks] := by
    rw [Trial.batch, result_marked, Option.or_none]
  refine ⟨status_marked marks, batch, ?_, ?_⟩
  · intro stands
    obtain ⟨m, last⟩ := exists_of_status_marked rfl stands
    exact ⟨m, last, by rw [batch, last]⟩
  · intro _
    rw [batch, List.cons_eq_cons, and_iff_left rfl, lastMetrics?_eq_none_iff]

/-- Two completions and a failure, a completion after a failure, and a failure alone. -/
theorem gives_last_completion_remarked :
    let first := Metrics.empty.set Metrics.throughputTag ⟨0x4014000000000000⟩
    let second := Metrics.empty.set Metrics.throughputTag ⟨0x4018000000000000⟩
    let lost := sample.marked
      [.completed .epoch first, .begun .epoch, .completed .epoch second, .failed .epoch "late"]
    let regained := sample.marked [.failed .epoch "lost", .completed .epoch first]
    let failed := sample.marked [.begun .epoch, .failed .epoch "crashed"]
    (lost.status = .failed ∧ lost.batch = [some second]) ∧
      (regained.status = .completed ∧ regained.batch = [some first]) ∧
      failed.status = .failed ∧ failed.batch = [none] := by
  intro first second lost regained failed
  obtain ⟨status, batch, -⟩ := gives_last_completion sample.id sample.probe sample.created
    [.completed .epoch first, .begun .epoch, .completed .epoch second, .failed .epoch "late"]
  obtain ⟨stands, -, own, -⟩ := gives_last_completion sample.id sample.probe sample.created
    [.failed .epoch "lost", .completed .epoch first]
  obtain ⟨ends, -, -, never⟩ := gives_last_completion sample.id sample.probe sample.created
    [.begun .epoch, .failed .epoch "crashed"]
  obtain ⟨m, last, given⟩ := own stands
  cases last
  exact ⟨⟨status, batch⟩, ⟨stands, given⟩, ends, (never (by decide +kernel)).mpr (by decide)⟩

/-- A trial that failed after a completion still gives the metrics of it. -/
theorem not_always_withheld :
    let t := (measured ⟨0x4014000000000000⟩).fail .epoch "late"
    t.status = .failed ∧
      t.batch = [some (Metrics.empty.set Metrics.throughputTag ⟨0x4014000000000000⟩)] :=
  ⟨rfl, rfl⟩

end ServingSweep.Trial
