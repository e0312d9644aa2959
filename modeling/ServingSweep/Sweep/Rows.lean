import ServingSweep.Series

/-!
# Rows

What a walk has before it: rows of items, the current item first. A step leads to
the next item, or past the rest of the row. No row is empty. `items_table` and
`items_ofBlocks` say which items there are, and `next_suffix` that a step only
drops items.
-/

namespace ServingSweep

variable {α β γ κ : Type}

structure Row (α : Type) where
  head : α
  tail : List α
  deriving DecidableEq

def Row.toList (row : Row α) : List α := row.head :: row.tail

/-- Rows in order, the current one from the current item on. -/
abbrev Rows (α : Type) := Series (Row α)

namespace Rows

/-- A row for each key down, with an item for each key across. -/
def table (item : β → γ → α) (down : Series β) : List γ → Rows α
  | [] => .nil
  | c :: cs => down.map (fun b => ⟨item b c, cs.map (item b)⟩)

/-- Puts an item before rows: into the first one, if the keys agree. -/
def prepend [DecidableEq κ] (key : α → κ) (a : α) : List (Row α) → List (Row α)
  | [] => [⟨a, []⟩]
  | row :: rows => if key row.head = key a then ⟨a, row.toList⟩ :: rows else ⟨a, []⟩ :: row :: rows

/-- Rows of neighbours that have a key in common. -/
def ofBlocks [DecidableEq κ] (key : α → κ) (as : List α) : Rows α :=
  .ofList (as.foldr (prepend key) [])

def items (rows : Rows α) : List α := rows.toList.flatMap Row.toList

def left (rows : Rows α) : Nat := rows.items.length

def current? (rows : Rows α) : Option α := rows.head?.map Row.head

/-- The rows after the current item, or after its row. -/
def next (rows : Rows α) (stop : Bool) : Rows α :=
  match rows with
  | .nil => .nil
  | .cons ⟨_, []⟩ rest => rest ()
  | .cons ⟨_, a :: as⟩ rest => if stop then rest () else .cons ⟨a, as⟩ rest

def entersRow (rows : Rows α) (stop : Bool) : Bool :=
  match rows with
  | .nil => false
  | .cons row _ => stop || row.tail.isEmpty

/-! ### Items -/

@[simp] theorem items_nil : items (.nil : Rows α) = [] := rfl

@[simp] theorem items_cons (row : Row α) (rest : Unit → Rows α) :
    items (.cons row rest) = row.toList ++ (rest ()).items := rfl

theorem items_table (item : β → γ → α) (down : Series β) (across : List γ) :
    (table item down across).items = down.toList.flatMap (fun b => across.map (item b)) := by
  cases across with
  | nil => simp [table]
  | cons c cs => simp [table, items, Row.toList, List.flatMap_map]

theorem flatten_prepend [DecidableEq κ] (key : α → κ) (a : α) (rows : List (Row α)) :
    (prepend key a rows).flatMap Row.toList = a :: rows.flatMap Row.toList := by
  cases rows with
  | nil => rfl
  | cons row rows => simp only [prepend]; split <;> simp [Row.toList]

theorem items_ofBlocks [DecidableEq κ] (key : α → κ) (as : List α) :
    (ofBlocks key as).items = as := by
  simp only [items, ofBlocks, Series.toList_ofList]
  induction as with
  | nil => rfl
  | cons a as ih => exact (flatten_prepend key a _).trans (congrArg _ ih)

theorem current?_eq (rows : Rows α) : rows.current? = rows.items.head? := by
  cases rows <;> rfl

/-- A step drops the current item and perhaps more of its row. -/
theorem next_suffix (rows : Rows α) (stop : Bool) : (rows.next stop).items <:+ rows.items.tail := by
  unfold next
  split
  · exact List.suffix_refl _
  · exact List.suffix_refl _
  · next as rest =>
    split
    · exact ⟨_, rfl⟩
    · exact List.suffix_refl _

theorem left_next_le (rows : Rows α) (stop : Bool) : (rows.next stop).left ≤ rows.left - 1 := by
  simpa [left] using (next_suffix rows stop).length_le

theorem left_pos {rows : Rows α} {a : α} (h : rows.current? = some a) : 0 < rows.left := by
  cases rows with
  | nil => simp [current?, Series.head?] at h
  | cons row rest => simp [left, Row.toList]

end Rows

end ServingSweep
