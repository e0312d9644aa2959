import ServingSweep.Proofs.Batch
import ServingSweep.Run

/-!
What a report tells of the trials it was given. It counts those that ended under their marks and keeps
the first of them with the largest objective (`tells_ofTrials`), so that in another order the best is
another one at most where two tie (`keeps_first_best`).
-/

namespace ServingSweep

/-! ### Reports -/

def Trial.ended (t : Trial) : Bool :=
  match t.status with
  | .pending | .running => false
  | .completed | .failed => true

namespace Report
variable {objective : String} {trials : List Trial} {r : Report} {t : Trial}

theorem isFinite_of_valueOf {v : Binary64} (valued : r.valueOf t = some v) : v.isFinite = true :=
  Batch.isFinite_of_valueOf t.result v valued

theorem record_eq (r : Report) (t : Trial) : r.record t =
    { r with
      completed := r.completed + [t].countP (fun t => t.status = .completed)
      failed := r.failed + [t].countP (fun t => t.status = .failed)
      best := if t.ended && r.improvedBy t then some t else r.best } := by
  unfold record count Trial.ended
  cases status : t.status with
  | pending => simp [status]
  | running => simp [status]
  | completed => cases r.improvedBy t <;> simp [status]
  | failed => cases r.improvedBy t <;> simp [status]

theorem record_of_not_ended (still : t.ended = false) : r.record t = r := by
  unfold Trial.ended at still
  unfold record
  cases status : t.status <;> simp [status] at still ⊢

theorem improvedBy_iff : r.improvedBy t = true ↔
    ∃ v, r.valueOf t = some v ∧ ∀ largest, r.bestValue = some largest → largest.lt v = true := by
  unfold improvedBy
  cases valued : r.valueOf t with
  | none => simp
  | some v => cases r.bestValue <;> simp

theorem picks_improved (picks : Picks r.valueOf trials r.best) (improved : r.improvedBy t = true) :
    Picks r.valueOf (trials ++ [t]) (some t) := by
  obtain ⟨v, valued, above⟩ := improvedBy_iff.mp improved
  have alone := picks_singleton r.valueOf t
  rw [valued] at alone
  exact picks.take (fun _ _ => isFinite_of_valueOf) alone valued above

theorem picks_kept (picks : Picks r.valueOf trials r.best) (kept : r.improvedBy t = false) :
    Picks r.valueOf (trials ++ [t]) r.best := by
  refine picks.keep (fun _ _ => isFinite_of_valueOf) (picks_singleton _ t) ?_
  intro v alone
  cases valued : r.valueOf t with
  | none =>
    rw [valued] at alone
    cases alone
  | some u =>
    obtain rfl : u = v := by simpa [valued] using alone
    -- A value that does not improve is at most the best.
    have beaten : ∃ largest, r.bestValue = some largest ∧ largest.lt u = false := by
      simpa [valued] using mt improvedBy_iff.mpr (Bool.eq_false_iff.mp kept)
    obtain ⟨largest, top, notLess⟩ := beaten
    refine ⟨largest, top, Binary64.le_of_not_lt (isFinite_of_valueOf valued) ?_ notLess⟩
    exact isFinite_bind (fun _ _ => isFinite_of_valueOf) top

structure Tells (objective : String) (trials : List Trial) (r : Report) : Prop where
  objective : r.objective = objective
  completed : r.completed = trials.countP (fun t => t.status = .completed)
  failed : r.failed = trials.countP (fun t => t.status = .failed)
  best : Picks r.valueOf (trials.filter Trial.ended) r.best

theorem tells_record (tells : Tells objective trials r) (t : Trial) :
    Tells objective (trials ++ [t]) (r.record t) := by
  rw [record_eq]
  refine ⟨tells.objective, ?_, ?_, ?_⟩
  · rw [tells.completed, List.countP_append]
  · rw [tells.failed, List.countP_append]
  · change Picks r.valueOf _ (if t.ended && r.improvedBy t then some t else r.best)
    rw [List.filter_append]
    cases ended : t.ended with
    | false => simpa [ended] using tells.best
    | true =>
      rw [List.filter_cons_of_pos ended, Bool.true_and]
      cases improved : r.improvedBy t with
      | true => exact picks_improved tells.best improved
      | false => exact picks_kept tells.best improved

theorem tells_ofTrials (objective : String) (trials : List Trial) :
    Tells objective trials (ofTrials objective trials) := by
  have further : ∀ (later past : List Trial) (r : Report), Tells objective past r →
      Tells objective (past ++ later) (later.foldl record r) := by
    intro later
    induction later with
    | nil => intro past r tells; rwa [List.append_nil]
    | cons t later ih =>
      intro past r tells
      have all := ih (past ++ [t]) (r.record t) (tells_record tells t)
      rwa [List.append_assoc] at all
  exact further trials [] _ ⟨rfl, rfl, rfl, fun _ impossible => nomatch impossible⟩

theorem ofTrials_filter_ended (objective : String) (trials : List Trial) :
    ofTrials objective (trials.filter Trial.ended) = ofTrials objective trials := by
  unfold ofTrials
  generalize ({ objective := objective } : Report) = r
  induction trials generalizing r with
  | nil => rfl
  | cons t trials ih =>
    cases ended : t.ended with
    | true =>
      rw [List.filter_cons_of_pos ended]
      exact ih (r.record t)
    | false =>
      rw [List.filter_cons_of_neg (by simp [ended]), ih r, List.foldl_cons,
        record_of_not_ended ended]

theorem bestValue_ties {other : Report} {others : List Trial} (tells : Tells objective trials r)
    (tells' : Tells objective others other) (perm : trials.Perm others) :
    Option.Rel Binary64.Ties r.bestValue other.bestValue := by
  have same : other.valueOf = r.valueOf := by
    funext t
    simp only [valueOf, tells.objective, tells'.objective]
  have picks := tells'.best
  unfold bestValue
  rw [same] at picks ⊢
  refine tells.best.ties (fun _ _ => isFinite_of_valueOf) picks ?_
  intro v
  simp only [(perm.filter Trial.ended).mem_iff]

/-- The report of trials counts those that ended and keeps, as it is, the first of them with the
largest objective, or nothing where none has a finite one. Their order matters to a tie only. -/
theorem keeps_first_best (objective : String) (trials : List Trial) :
    let r := ofTrials objective trials
    let value (t : Trial) := t.result.bind (·.measured objective)
    (r.completed = trials.countP (fun t => t.status = .completed) ∧
      r.failed = trials.countP (fun t => t.status = .failed) ∧
      ofTrials objective (trials.filter Trial.ended) = r) ∧
    (r.best = none ↔ ∀ t ∈ trials, t.ended = true → Batch.Void objective t.result) ∧
    (∀ best, r.best = some best →
      FirstLargest value (trials.filter Trial.ended) best ∧ r.bestValue = value best) ∧
    ∀ others, trials.Perm others →
      (ofTrials objective others).completed = r.completed ∧
        (ofTrials objective others).failed = r.failed ∧
        Option.Rel Binary64.Ties r.bestValue (ofTrials objective others).bestValue := by
  intro r value
  have tells : Tells objective trials r := tells_ofTrials objective trials
  have same : r.valueOf = value := by
    funext t
    simp only [valueOf, tells.objective, value]
  have picks := tells.best
  rw [same] at picks
  refine ⟨⟨tells.completed, tells.failed, ofTrials_filter_ended objective trials⟩, ?_, ?_, ?_⟩
  · rw [picks.eq_none_iff]
    simp only [List.mem_filter, and_imp]
    have void (t : Trial) : value t = none ↔ Batch.Void objective t.result :=
      Batch.valueOf_eq_none_iff
    simp only [void]
  · intro best kept
    rw [kept] at picks
    refine ⟨picks, ?_⟩
    rw [bestValue, kept, same, Option.bind_some]
  · intro others perm
    have tells' := tells_ofTrials objective others
    refine ⟨?_, ?_, bestValue_ties tells tells' perm⟩
    · rw [tells'.completed, tells.completed, perm.countP_eq]
    · rw [tells'.failed, tells.failed, perm.countP_eq]

def numbered (number : Nat) (status : Status) (throughput : Option Binary64) : Trial where
  id := ⟨0⟩
  probe := ⟨⟨0⟩, number, "m", ⟨"m", [], []⟩, { variant := "m", batchSize := 1, concurrency := 1 }⟩
  status := status
  result := throughput.map (Metrics.empty.set Metrics.throughputTag)
  created := .epoch

/-- Both zeros after a trial that did not end, and then no number. -/
def zeros : List Trial :=
  [numbered 0 .running (some ⟨0x3ff0000000000000⟩), numbered 1 .completed (some ⟨0⟩),
    numbered 2 .failed none, numbered 3 .failed (some ⟨0x8000000000000000⟩),
    numbered 4 .completed (some ⟨0x7ff8000000000000⟩)]

theorem keeps_first_best_zeros :
    let report := ofTrials Metrics.throughputTag
    (∃ first, zeros[1]? = some first ∧ (report zeros).best = some first ∧
      FirstLargest (report zeros).valueOf (zeros.filter Trial.ended) first) ∧
    (report zeros.reverse).best = zeros[3]? ∧
    Option.Rel Binary64.Ties (report zeros).bestValue (report zeros.reverse).bestValue := by
  intro report
  obtain ⟨-, -, kept, reordered⟩ := keeps_first_best Metrics.throughputTag zeros
  have best : (report zeros).best = zeros[1]? := by decide +kernel
  refine ⟨⟨numbered 1 .completed (some ⟨0⟩), rfl, best, (kept _ best).1⟩, by decide +kernel, ?_⟩
  exact (reordered zeros.reverse (List.reverse_perm zeros).symm).2.2

end Report
end ServingSweep
