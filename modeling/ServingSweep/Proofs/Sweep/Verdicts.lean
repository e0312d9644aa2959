import Mathlib.Data.List.Forall2
import ServingSweep.Proofs.Batch
import ServingSweep.Proofs.Sweep.Walk

/-!
Verdicts follow the best values of the steps. Two runs of records and resets with alike batches give
the same verdicts, and their histories tie entry by entry (`run_abreast`). The results of several trials
together are worth what the largest of their bests is worth (`verdicts_follow_bests`).
-/

namespace ServingSweep.Progress
open Binary64 (Ties larger)

inductive Act where
  | record (batch : Batch)
  | reset

inductive Act.Alike (tag : String) : Act → Act → Prop where
  | record {xs ys : Batch} (alike : Batch.Alike tag xs ys) : Alike tag (.record xs) (.record ys)
  | reset : Alike tag .reset .reset

def run (p : Progress) : List Act → List Verdict × Progress
  | [] => ([], p)
  | .record batch :: acts =>
    let rest := (p.record batch).2.run acts
    ((p.record batch).1 :: rest.1, rest.2)
  | .reset :: acts => p.reset.run acts

/-- With the same metric, and histories that tie entry by entry. -/
structure Abreast (p q : Progress) : Prop where
  metric : p.metric = q.metric
  history : List.Forall₂ Ties p.history q.history

variable {p q : Progress} {xs ys : Batch} {acts acts' : List Act} {history history' : List Binary64}
  {v v' : Binary64}

theorem judge_eq (abreast : List.Forall₂ Ties history history') (ties : Ties v v') :
    judge history v = judge history' v' := by
  have same : history.all (·.lt v) = history'.all (·.lt v') := by
    induction abreast with
    | nil => rfl
    | cons first _ ih => rw [List.all_cons, List.all_cons, ih, first.lt_eq ties]
  rw [judge, judge, same]

theorem record_of_best (best : xs.best p.metric = some v) :
    p.record xs = (judge p.history v, { p with history := p.history ++ [v] }) := by
  rw [record, best]

theorem record_of_none (none : xs.best p.metric = none) : p.record xs = (.unmeasured, p) := by
  rw [record, none]

theorem record_abreast (abreast : Abreast p q) (alike : Batch.Alike p.metric xs ys) :
    (p.record xs).1 = (q.record ys).1 ∧ Abreast (p.record xs).2 (q.record ys).2 := by
  have metric := abreast.metric
  have ties := alike.ties
  generalize left : xs.best p.metric = best, right : ys.best p.metric = best' at ties
  cases ties with
  | none =>
    rw [record_of_none left, record_of_none (metric ▸ right)]
    exact ⟨rfl, abreast⟩
  | some ties =>
    rw [record_of_best left, record_of_best (metric ▸ right)]
    refine ⟨judge_eq abreast.history ties, metric, ?_⟩
    exact List.rel_append abreast.history (.cons ties .nil)

theorem run_abreast (abreast : Abreast p q) (alike : List.Forall₂ (Act.Alike p.metric) acts acts') :
    (p.run acts).1 = (q.run acts').1 ∧ Abreast (p.run acts).2 (q.run acts').2 := by
  generalize same : p.metric = tag at alike
  induction alike generalizing p q with
  | nil => exact ⟨rfl, abreast⟩
  | cons first _ ih =>
    subst same
    cases first with
    | record alike =>
      obtain ⟨verdict, next⟩ := record_abreast abreast alike
      obtain ⟨verdicts, last⟩ := ih next (record_metric p _)
      exact ⟨congrArg₂ List.cons verdict verdicts, last⟩
    | reset => exact ih ⟨abreast.metric, .nil⟩ rfl

/-- The verdict on several batches together is the one on a largest of their bests. -/
theorem record_flatten (p : Progress) {batches : List Batch} {top : Binary64}
    (member : top ∈ Batch.bests p.metric batches)
    (most : ∀ b ∈ Batch.bests p.metric batches, b.le top = true) :
    (p.record batches.flatten).1 = judge p.history top := by
  unfold record
  cases best : Batch.best batches.flatten p.metric with
  | none =>
    rw [Batch.best_flatten_eq_none_iff.mp best] at member
    cases member
  | some v =>
    obtain ⟨b, other, above⟩ := Batch.exists_best_flatten_le best
    have ties : Ties v top :=
      ⟨Binary64.le_trans above (most b other), Batch.le_best_flatten best member⟩
    have same (h : Binary64) : h.lt v = h.lt top := ties.lt_congr
    simp only [judge, same]

/-- The best of a batch is a value of it above which none lies, and of two batches together the
larger of theirs. With alike batches two runs of records and resets give the same verdicts and tie in
their histories, and several trials together are judged by the largest of their bests. -/
theorem verdicts_follow_bests (tag : String) :
    (∀ xs ys : Batch, ((xs ++ ys).best tag = none ↔ xs.best tag = none ∧ ys.best tag = none) ∧
      (xs ++ ys).best tag = larger (xs.best tag) (ys.best tag)) ∧
    (∀ (xs : Batch) v, xs.best tag = some v →
      (∃ m, some m ∈ xs ∧ m.values.get? tag = some v) ∧
      ∀ m u, some m ∈ xs → m.values.get? tag = some u → u.isFinite = true → u.le v = true) ∧
    ∀ p : Progress, p.metric = tag →
      (∀ q, Abreast p q → ∀ acts acts', List.Forall₂ (Act.Alike tag) acts acts' →
        (p.run acts).1 = (q.run acts').1 ∧
          List.Forall₂ Ties (p.run acts).2.history (q.run acts').2.history) ∧
      ∀ trials : List Batch,
        (Batch.bests tag trials = [] → (p.record trials.flatten).1 = .unmeasured) ∧
        (Batch.bests tag trials ≠ [] → ∃ top ∈ Batch.bests tag trials,
          ∀ b ∈ Batch.bests tag trials, b.le top = true) ∧
        ∀ top ∈ Batch.bests tag trials, (∀ b ∈ Batch.bests tag trials, b.le top = true) →
          (p.record trials.flatten).1 = judge p.history top := by
  refine ⟨?_, ?_, ?_⟩
  · intro xs ys
    rw [Batch.best_append]
    cases xs.best tag <;> cases ys.best tag <;> simp [larger]
    split <;> simp
  · intro xs v best
    constructor
    · obtain ⟨entry, member, valued⟩ := Batch.mem_of_best best
      obtain ⟨m, rfl, valued⟩ := Option.bind_eq_some_iff.mp valued
      exact ⟨m, member, (Option.filter_eq_some_iff.mp valued).1⟩
    · intro m u member has finite
      exact Batch.le_best best member (Option.filter_eq_some_iff.mpr ⟨has, finite⟩)
  · rintro p rfl
    constructor
    · intro q abreast acts acts' alike
      obtain ⟨verdicts, last⟩ := run_abreast abreast alike
      exact ⟨verdicts, last.history⟩
    · intro trials
      refine ⟨?_, Batch.exists_largest_best, fun top => record_flatten p⟩
      intro void
      rw [record_of_none (Batch.best_flatten_eq_none_iff.mpr void)]

def started : Progress := { dimension := .batchSize, metric := Metrics.throughputTag }

def throughputs (values : List Binary64) : Batch :=
  values.map fun v => some (Metrics.empty.set Metrics.throughputTag v)

def zero : Binary64 := ⟨0⟩

def one : Binary64 := ⟨0x3ff0000000000000⟩

/-- No number, then no result, then the zeros in one order. -/
def signs : List Act :=
  [.record (throughputs [⟨0x7ff8000000000000⟩, one]), .record [none], .reset,
    .record (throughputs [zero.neg, zero]), .record (throughputs [zero])]

def otherSigns : List Act :=
  [.record (throughputs [one]), .record [], .reset,
    .record (throughputs [zero, zero.neg]), .record (throughputs [zero])]

theorem alike_signs : List.Forall₂ (Act.Alike Metrics.throughputTag) signs otherSigns := by
  have nan : Batch.Void Metrics.throughputTag
      (some (Metrics.empty.set Metrics.throughputTag ⟨0x7ff8000000000000⟩)) := by
    rintro m v ⟨⟩ has
    obtain rfl : _ = v := Option.some.inj has
    decide
  have absent : Batch.Void Metrics.throughputTag none := fun m v impossible => nomatch impossible
  refine .cons (.record (.dropped [] _ nan)) (.cons (.record (.dropped [] [] absent)) ?_)
  refine .cons .reset (.cons (.record (.reordered (.swap _ _ _))) (.cons ?_ .nil))
  exact .record (.reordered (.refl _))

theorem verdicts_follow_bests_zeros :
    (started.run signs).1 = [.improved, .unmeasured, .improved, .plateaued] ∧
    (started.run signs).1 = (started.run otherSigns).1 ∧
    (started.run signs).2.history ≠ (started.run otherSigns).2.history ∧
    List.Forall₂ Ties (started.run signs).2.history (started.run otherSigns).2.history ∧
    (started.record [throughputs [zero], [none], throughputs [one, zero]].flatten).1 =
      judge [] one := by
  obtain ⟨-, -, further⟩ := verdicts_follow_bests Metrics.throughputTag
  obtain ⟨same, several⟩ := further started rfl
  obtain ⟨verdicts, histories⟩ := same started ⟨rfl, .nil⟩ signs otherSigns alike_signs
  obtain ⟨-, -, largest⟩ := several [throughputs [zero], [none], throughputs [one, zero]]
  refine ⟨by decide +kernel, verdicts, by decide +kernel, histories, ?_⟩
  exact largest one (by decide +kernel) (by decide +kernel)

end ServingSweep.Progress
