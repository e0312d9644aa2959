import Mathlib.Data.List.SplitBy
import ServingSweep.Sweep.Rows

/-!
Rows as lists of items. `lists_ofBlocks` shows that the rows of neighbours with a common key are
the longest such blocks, and `lists_table` that a table has a row for each key down.
-/

namespace ServingSweep.Rows
variable {α β γ κ : Type}

def lists (rows : Rows α) : List (List α) := rows.toList.map Row.toList

@[simp] theorem lists_nil : lists (.nil : Rows α) = [] := rfl

@[simp] theorem lists_cons (row : Row α) (rest : Unit → Rows α) :
    lists (.cons row rest) = row.toList :: (rest ()).lists := rfl

theorem flatten_lists (rows : Rows α) : rows.lists.flatten = rows.items := by
  rw [lists, items, List.flatMap_def]

/-- A step drops the current item, or its whole row. -/
theorem lists_next {left : Rows α} {a : α} (current : left.current? = some a) (stop : Bool) :
    ∃ tail rest, left.lists = (a :: tail) :: rest ∧
      left.entersRow stop = (stop || tail.isEmpty) ∧
      (left.next stop).lists = if left.entersRow stop then rest else tail :: rest := by
  rcases left with _ | ⟨⟨head, tail⟩, rest⟩
  · cases current
  obtain rfl : head = a := Option.some.inj current
  refine ⟨tail, lists (rest ()), rfl, rfl, ?_⟩
  cases tail with
  | nil => cases stop <;> rfl
  | cons next tail => cases stop <;> rfl

theorem lists_table (item : β → γ → α) (down : Series β) (first : γ) (across : List γ) :
    (table item down (first :: across)).lists =
      down.toList.map (fun b => (first :: across).map (item b)) := by
  simp [lists, table, Row.toList]

/-! ### Blocks -/

def Blocks (key : α → κ) (rows : List (Row α)) : Prop :=
  (∀ row ∈ rows, ∀ a ∈ row.tail, key a = key row.head) ∧
    rows.IsChain (fun row next => key row.head ≠ key next.head)

theorem blocks_prepend [DecidableEq κ] {key : α → κ} {rows : List (Row α)}
    (blocks : Blocks key rows) (a : α) : Blocks key (prepend key a rows) := by
  obtain ⟨within, between⟩ := blocks
  cases rows with
  | nil => exact ⟨by simp [prepend], .singleton _⟩
  | cons row rows =>
    simp only [prepend]
    split
    · next same =>
      refine ⟨?_, ?_⟩
      · intro row' member b inside
        rcases List.mem_cons.mp member with rfl | member
        · rcases List.mem_cons.mp inside with rfl | inside
          · exact same
          · exact (within row List.mem_cons_self b inside).trans same
        · exact within row' (List.mem_cons_of_mem _ member) b inside
      · rw [List.isChain_cons] at between ⊢
        obtain ⟨apart, between⟩ := between
        exact ⟨fun next first => by rw [← same]; exact apart next first, between⟩
    · next different =>
      refine ⟨?_, ?_⟩
      · intro row' member b inside
        rcases List.mem_cons.mp member with rfl | member
        · exact absurd inside List.not_mem_nil
        · exact within row' member b inside
      · exact List.isChain_cons_cons.mpr ⟨fun same => different same.symm, between⟩

theorem blocks_foldr [DecidableEq κ] (key : α → κ) (as : List α) :
    Blocks key (as.foldr (prepend key) []) := by
  induction as with
  | nil => exact ⟨fun _ member => absurd member List.not_mem_nil, .nil⟩
  | cons a as ih => exact blocks_prepend ih a

/-- Neighbours in a row of blocks have the same key. -/
theorem isChain_toList {key : α → κ} [DecidableEq κ] {row : Row α}
    (within : ∀ a ∈ row.tail, key a = key row.head) :
    row.toList.IsChain (fun a b => decide (key a = key b)) := by
  have all : ∀ (as : List α) (b : α), (∀ a ∈ as, key a = key b) →
      (b :: as).IsChain (fun a b => decide (key a = key b)) := by
    intro as
    induction as with
    | nil => exact fun _ _ => .singleton _
    | cons a as ih =>
      intro b same
      have first := same a List.mem_cons_self
      refine List.isChain_cons_cons.mpr ⟨decide_eq_true first.symm, ih a ?_⟩
      intro c inside
      exact (same c (List.mem_cons_of_mem _ inside)).trans first.symm
  exact all row.tail row.head within

/-- The rows are the longest blocks of neighbours with a common key. -/
theorem lists_ofBlocks [DecidableEq κ] (key : α → κ) (as : List α) :
    (ofBlocks key as).lists = as.splitBy (fun a b => decide (key a = key b)) := by
  have flat := (flatten_lists (ofBlocks key as)).trans (items_ofBlocks key as)
  obtain ⟨within, between⟩ := blocks_foldr key as
  symm
  rw [List.splitBy_eq_iff]
  have rows : (ofBlocks key as).lists = (as.foldr (prepend key) []).map Row.toList := by
    rw [lists, ofBlocks, Series.toList_ofList]
  refine ⟨flat.symm, ?_, ?_, ?_⟩
  · rw [rows, List.mem_map]
    rintro ⟨row, -, empty⟩
    exact List.cons_ne_nil _ _ empty
  · intro list member
    rw [rows, List.mem_map] at member
    obtain ⟨row, member, rfl⟩ := member
    exact isChain_toList (within row member)
  · rw [rows, List.isChain_map]
    refine List.IsChain.imp_of_mem_imp ?_ between
    intro row next member _ different
    have nonempty : row.toList ≠ [] := List.cons_ne_nil _ _
    refine ⟨nonempty, List.cons_ne_nil _ _, decide_eq_false ?_⟩
    have last : key (row.toList.getLast nonempty) = key row.head := by
      rcases List.mem_cons.mp (List.getLast_mem nonempty) with same | inside
      · rw [same]
      · exact within row member _ inside
    rw [last]
    exact different

end ServingSweep.Rows
