import ServingSweep.Proofs.Related
import ServingSweep.Proofs.Sweep.Rows

/-!
The trail of a walk over rows. A step goes past the current item or past the rest of its row, so by
`position_of_walked` the items that a walk has seen are a front of each row in turn, and none of the
rows it left was skipped.
-/

namespace ServingSweep
open scoped List

namespace Rows
variable {α : Type}

inductive Walked (rows : Rows α) : List α → Rows α → Prop where
  | start : Walked rows [] rows
  | step {given : List α} {left : Rows α} {a : α} (before : Walked rows given left)
      (current : left.current? = some a) (stop : Bool) : Walked rows (given ++ [a]) (left.next stop)

theorem eq_nil_of_current? {rows : Rows α} (finished : rows.current? = none) : rows = .nil := by
  cases rows with
  | nil => rfl
  | cons row rest => cases finished

def Fronts (parts rows : List (List α)) : Prop :=
  List.Forall₂ (fun part row => part ≠ [] ∧ part <+: row) parts rows

/-- A front of every row that was left, then a front of the row that is walked, if any. -/
def Trail (lists : List (List α)) (given : List α) (ahead : List (List α)) : Prop :=
  ∃ behind parts inside, lists = behind ++ ahead ∧ given = parts.flatten ++ inside ∧
    Fronts parts behind ∧ inside <+: ahead.headD []

theorem Fronts.concat {parts rows : List (List α)} (fronts : Fronts parts rows)
    {part row : List α} (begun : part ≠ []) (front : part <+: row) :
    Fronts (parts ++ [part]) (rows ++ [row]) :=
  List.rel_append fronts (.cons ⟨begun, front⟩ .nil)

theorem Fronts.sublist {parts rows : List (List α)} (fronts : Fronts parts rows) :
    parts.flatten <+ rows.flatten := by
  induction fronts with
  | nil => exact .refl _
  | cons front _ ih =>
    simp only [List.flatten_cons]
    exact front.2.sublist.append ih

theorem Trail.sublist {lists ahead : List (List α)} {given : List α}
    (trail : Trail lists given ahead) : given <+ lists.flatten := by
  obtain ⟨behind, parts, inside, rfl, rfl, fronts, front⟩ := trail
  have rest : inside <+ ahead.flatten := by
    cases ahead with
    | nil => exact front.sublist
    | cons row rows =>
      have within : inside <+ row := front.sublist
      exact within.trans (List.sublist_append_left row rows.flatten)
  rw [List.flatten_append]
  exact fronts.sublist.append rest

/-- When no row is ahead, the first item of every row was seen. -/
theorem Trail.firsts {lists : List (List α)} {given : List α} (trail : Trail lists given []) :
    ∀ row ∈ lists, ∃ first ∈ given, row.head? = some first := by
  obtain ⟨behind, parts, inside, rfl, rfl, fronts, -⟩ := trail
  intro row member
  rw [List.append_nil] at member
  obtain ⟨part, among, begun, rest, rfl⟩ := exists_of_mem_right fronts member
  cases part with
  | nil => exact absurd rfl begun
  | cons first part =>
    have seen : first ∈ parts.flatten := List.mem_flatten.mpr ⟨_, among, List.mem_cons_self⟩
    exact ⟨first, List.mem_append_left _ seen, rfl⟩

/-! ### Where a walk stands -/

/-- Where a walk stands in its rows after some items, with `left` to come. -/
inductive Position (lists : List (List α)) : List α → List (List α) → Prop where
  | within {behind parts rest : List (List α)} {inside row : List α}
      (split : lists = behind ++ (inside ++ row) :: rest) (fronts : Fronts parts behind) :
      Position lists (parts.flatten ++ inside) (row :: rest)
  | exhausted {parts : List (List α)} (fronts : Fronts parts lists) :
      Position lists parts.flatten []

theorem position_enter {lists behind parts left : List (List α)} (split : lists = behind ++ left)
    (fronts : Fronts parts behind) : Position lists parts.flatten left := by
  cases left with
  | nil =>
    rw [List.append_nil] at split
    subst split
    exact .exhausted fronts
  | cons row rest =>
    have position : Position lists (parts.flatten ++ []) (row :: rest) := .within split fronts
    rw [List.append_nil] at position
    exact position

theorem position_next {lists : List (List α)} {given : List α} {left : Rows α} {a : α}
    (position : Position lists given left.lists) (current : left.current? = some a) (stop : Bool) :
    Position lists (given ++ [a]) (left.next stop).lists := by
  obtain ⟨tail, rest, same, -, next⟩ := lists_next current stop
  rw [same] at position
  rw [next]
  cases position with
  | @within behind parts _ inside _ split fronts =>
    split
    · -- The row is left, at its end or on a stop before it: a front of it was seen.
      have front : inside ++ [a] <+: inside ++ a :: tail := ⟨tail, by simp⟩
      have done : lists = (behind ++ [inside ++ a :: tail]) ++ rest := by simp [split]
      have entered := position_enter done (fronts.concat (by simp) front)
      simpa using entered
    · have further : lists = behind ++ ((inside ++ [a]) ++ tail) :: rest := by simp [split]
      have position := Position.within further fronts
      rwa [← List.append_assoc] at position

theorem position_of_walked {rows left : Rows α} {given : List α} (walked : Walked rows given left) :
    Position rows.lists given left.lists := by
  induction walked with
  | start =>
    have whole : rows.lists = [] ++ rows.lists := rfl
    exact position_enter whole .nil
  | step _ current stop ih => exact position_next ih current stop

theorem Position.trail {lists left : List (List α)} {given : List α}
    (position : Position lists given left) :
    ∃ ahead, Trail lists given ahead ∧ ahead.length = left.length := by
  cases position with
  | @within behind parts rest inside row split fronts =>
    exact ⟨_, ⟨behind, parts, inside, split, rfl, fronts, ⟨row, rfl⟩⟩, rfl⟩
  | @exhausted parts fronts =>
    exact ⟨[], ⟨lists, parts, [], by simp, by simp, fronts, List.prefix_refl _⟩, rfl⟩

/-- The current item extends the trail within its row. -/
theorem Position.trail_current {lists : List (List α)} {given : List α} {left : Rows α} {a : α}
    (position : Position lists given left.lists) (current : left.current? = some a) :
    ∃ ahead, Trail lists (given ++ [a]) ahead ∧ ahead.length = left.lists.length := by
  rcases left with _ | ⟨⟨head, tail⟩, rest⟩
  · cases current
  obtain rfl : head = a := Option.some.inj current
  simp only [lists_cons, Row.toList] at position
  cases position with
  | @within behind parts _ inside _ split fronts =>
    refine ⟨_, ⟨behind, parts, inside ++ [head], split, by simp, fronts, ⟨tail, ?_⟩⟩, rfl⟩
    simp

end Rows
end ServingSweep
