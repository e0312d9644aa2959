/-!
# Journals

Lists that grow at their end. Entries are kept the last first, so that an entry costs
the same however many there are; what a journal holds is said by its list.
-/

namespace ServingSweep

structure Journal (α : Type) where
  /-- The entries, the last first. -/
  latest : List α := []
  deriving DecidableEq

namespace Journal

variable {α : Type}

def toList (j : Journal α) : List α := j.latest.reverse

def length (j : Journal α) : Nat := j.latest.length

def push (j : Journal α) (a : α) : Journal α := ⟨a :: j.latest⟩

def append (j : Journal α) (as : List α) : Journal α := as.foldl push j

/-! ### Lists -/

@[simp] theorem toList_empty : ({} : Journal α).toList = [] := rfl

@[simp] theorem toList_push (j : Journal α) (a : α) : (j.push a).toList = j.toList ++ [a] := by
  simp [push, toList]

@[simp] theorem toList_append (j : Journal α) (as : List α) :
    (j.append as).toList = j.toList ++ as := by
  induction as generalizing j with
  | nil => simp [append]
  | cons a as ih => simpa [append] using ih (j.push a)

@[simp] theorem length_toList (j : Journal α) : j.toList.length = j.length := by
  simp [toList, length]

end Journal

end ServingSweep
