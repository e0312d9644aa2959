import Mathlib.Data.List.Induction
import ServingSweep.Batch
import ServingSweep.Proofs.Largest

/-!
The best of a batch: the value of the first of its largest entries (`picks_best`). The best of two
batches is the larger one of their bests (`best_append`), and neither the order of the entries nor
those without a finite value change it, up to a tie (`Alike.ties`).
-/

namespace ServingSweep

theorem Metrics.isFinite_of_measured {m : Metrics} {tag : String} {v : Binary64}
    (measured : m.measured tag = some v) : v.isFinite = true :=
  (Option.filter_eq_some_iff.mp measured).2

namespace Batch
open Binary64 (Ties larger)
variable {tag : String} {xs ys : Batch} {entry : Option Metrics} {u v : Binary64}

def valueOf (tag : String) (entry : Option Metrics) : Option Binary64 := entry.bind (·.measured tag)

theorem isFinite_of_valueOf (entry : Option Metrics) (v : Binary64)
    (valued : valueOf tag entry = some v) : v.isFinite = true := by
  obtain ⟨m, -, measured⟩ := Option.bind_eq_some_iff.mp valued
  exact Metrics.isFinite_of_measured measured

/-- An entry that is absent, lacks a tag or has a value for it that is not finite. -/
def Void (tag : String) (entry : Option Metrics) : Prop :=
  ∀ m v, entry = some m → m.values.get? tag = some v → v.isFinite = false

theorem valueOf_eq_none_iff : valueOf tag entry = none ↔ Void tag entry := by
  simp only [valueOf, Void, Metrics.measured, Option.bind_eq_none_iff, Option.filter_eq_none_iff,
    Bool.not_eq_true]
  grind

theorem best_concat (xs : Batch) (entry : Option Metrics) :
    best (xs ++ [entry]) tag = (valueOf tag entry).elim (xs.best tag) (better (xs.best tag)) := by
  unfold best values
  rw [List.filterMap_append, List.foldl_append]
  change List.foldl better _ ([entry].filterMap (valueOf tag)) = _
  cases valued : valueOf tag entry <;> simp [valued]

theorem better_eq_larger {best : Option Binary64}
    (known : ∀ b, best = some b → b.isFinite = true) (finite : v.isFinite = true) :
    better best v = larger best (some v) := by
  cases best with
  | none => rfl
  | some b =>
    simp only [better, larger]
    cases less : b.lt v with
    | true =>
      have above : v.le b = false := Bool.eq_false_iff.mpr fun most => by
        cases (Binary64.not_lt_of_le most).symm.trans less
      simp [above]
    | false => simp [Binary64.le_of_not_lt finite (known b rfl) less]

theorem picks_best (tag : String) (xs : Batch) :
    ∃ picked, Picks (valueOf tag) xs picked ∧ xs.best tag = picked.bind (valueOf tag) := by
  induction xs using List.reverseRecOn with
  | nil => exact ⟨none, by simp [Picks], rfl⟩
  | append_singleton xs entry ih =>
    obtain ⟨picked, picks, same⟩ := ih
    obtain ⟨both, joint, value⟩ := picks.append isFinite_of_valueOf (picks_singleton _ entry)
    refine ⟨both, joint, ?_⟩
    rw [value, best_concat, same]
    cases valued : valueOf tag entry with
    | none => cases picked.bind (valueOf tag) <;> rfl
    | some v =>
      have known (b : Binary64) (top : picked.bind (valueOf tag) = some b) : b.isFinite = true :=
        isFinite_bind isFinite_of_valueOf top
      simp [better_eq_larger known (isFinite_of_valueOf entry v valued), valued]

/-- The best of two batches is the larger one of their bests, the left one on a tie. -/
theorem best_append (tag : String) (xs ys : Batch) :
    (xs ++ ys).best tag = larger (xs.best tag) (ys.best tag) := by
  obtain ⟨left, first, same⟩ := picks_best tag xs
  obtain ⟨right, second, same'⟩ := picks_best tag ys
  obtain ⟨picked, picks, whole⟩ := picks_best tag (xs ++ ys)
  obtain ⟨both, joint, value⟩ := first.append isFinite_of_valueOf second
  rw [whole, picks.unique joint, value, same, same']

theorem mem_of_best (top : xs.best tag = some v) : ∃ entry ∈ xs, valueOf tag entry = some v := by
  obtain ⟨picked, picks, same⟩ := picks_best tag xs
  exact picks.exists_value (same.symm.trans top)

theorem le_best (top : xs.best tag = some v) (member : entry ∈ xs)
    (valued : valueOf tag entry = some u) : u.le v = true := by
  obtain ⟨picked, picks, same⟩ := picks_best tag xs
  exact picks.le_value isFinite_of_valueOf (same.symm.trans top) member valued

theorem best_eq_none_iff : xs.best tag = none ↔ ∀ entry ∈ xs, valueOf tag entry = none := by
  obtain ⟨picked, picks, same⟩ := picks_best tag xs
  rw [same, picks.value_eq_none]

/-! ### Alike -/

/-- Batches that differ in the order of their entries and in void ones. -/
inductive Alike (tag : String) : Batch → Batch → Prop where
  | reordered {xs ys : Batch} (perm : xs.Perm ys) : Alike tag xs ys
  | dropped {entry : Option Metrics} (xs ys : Batch) (void : Void tag entry) :
    Alike tag (xs ++ entry :: ys) (xs ++ ys)
  | symm {xs ys : Batch} (alike : Alike tag xs ys) : Alike tag ys xs
  | trans {xs ys zs : Batch} (first : Alike tag xs ys) (second : Alike tag ys zs) : Alike tag xs zs

theorem Alike.values_iff (alike : Alike tag xs ys) (v : Binary64) :
    (∃ entry ∈ xs, valueOf tag entry = some v) ↔ ∃ entry ∈ ys, valueOf tag entry = some v := by
  induction alike with
  | reordered perm => simp only [perm.mem_iff]
  | dropped xs ys void => simp [or_and_right, exists_or, valueOf_eq_none_iff.mpr void]
  | symm _ ih => exact ih.symm
  | trans _ _ first second => exact first.trans second

theorem Alike.ties (alike : Alike tag xs ys) : Option.Rel Ties (xs.best tag) (ys.best tag) := by
  obtain ⟨left, first, same⟩ := picks_best tag xs
  obtain ⟨right, second, same'⟩ := picks_best tag ys
  rw [same, same']
  exact first.ties isFinite_of_valueOf second alike.values_iff

/-! ### Several batches -/

section Several
variable {batches : List Batch}

/-- The bests of those batches in which something was measured. -/
def bests (tag : String) (batches : List Batch) : List Binary64 := batches.filterMap (·.best tag)

theorem best_flatten_eq_none_iff : best batches.flatten tag = none ↔ bests tag batches = [] := by
  unfold bests
  simp only [best_eq_none_iff, List.filterMap_eq_nil_iff, List.mem_flatten]
  constructor
  · exact fun void xs member entry here => void entry ⟨xs, member, here⟩
  · rintro void entry ⟨xs, member, here⟩
    exact void xs member entry here

theorem le_best_flatten (top : best batches.flatten tag = some v) (member : u ∈ bests tag batches) :
    u.le v = true := by
  obtain ⟨xs, batch, best⟩ := List.mem_filterMap.mp member
  obtain ⟨entry, here, valued⟩ := mem_of_best best
  exact le_best top (List.mem_flatten.mpr ⟨xs, batch, here⟩) valued

theorem exists_best_flatten_le (top : best batches.flatten tag = some v) :
    ∃ b ∈ bests tag batches, v.le b = true := by
  obtain ⟨entry, member, valued⟩ := mem_of_best top
  obtain ⟨xs, batch, here⟩ := List.mem_flatten.mp member
  cases largest : best xs tag with
  | none => cases (best_eq_none_iff.mp largest entry here).symm.trans valued
  | some b => exact ⟨b, List.mem_filterMap.mpr ⟨xs, batch, largest⟩, le_best largest here valued⟩

theorem exists_largest_best (some : bests tag batches ≠ []) :
    ∃ top ∈ bests tag batches, ∀ b ∈ bests tag batches, b.le top = true := by
  cases best : best batches.flatten tag with
  | none => exact absurd (best_flatten_eq_none_iff.mp best) some
  | some v =>
    obtain ⟨top, member, above⟩ := exists_best_flatten_le best
    refine ⟨top, member, ?_⟩
    intro b other
    exact Binary64.le_trans (le_best_flatten best other) above

end Several

end Batch
end ServingSweep
