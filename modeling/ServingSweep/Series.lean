/-!
# Series

Finite sequences whose items are made when they are reached, so that a long walk
costs no more than the part that is walked. What a series holds is said by its list.
-/

namespace ServingSweep

inductive Series (α : Type) where
  | nil
  | cons (head : α) (tail : Unit → Series α)

namespace Series

variable {α β : Type}

def toList : Series α → List α
  | nil => []
  | cons a rest => a :: (rest ()).toList

def ofList : List α → Series α
  | [] => nil
  | a :: as => cons a (fun _ => ofList as)

def count (rule : Nat → α) (first : Nat) : Nat → Series α
  | 0 => nil
  | n + 1 => cons (rule first) (fun _ => count rule (first + 1) n)

def map (f : α → β) : Series α → Series β
  | nil => nil
  | cons a rest => cons (f a) (fun _ => (rest ()).map f)

def isEmpty : Series α → Bool
  | nil => true
  | cons _ _ => false

def head? : Series α → Option α
  | nil => none
  | cons a _ => some a

/-! ### Lists -/

@[simp] theorem toList_nil : (nil : Series α).toList = [] := rfl

@[simp] theorem toList_cons (a : α) (rest : Unit → Series α) :
    (cons a rest).toList = a :: (rest ()).toList := rfl

@[simp] theorem toList_ofList (as : List α) : (ofList as).toList = as := by
  induction as with
  | nil => rfl
  | cons a as ih => simp [ofList, ih]

@[simp] theorem toList_count (rule : Nat → α) (first n : Nat) :
    (count rule first n).toList = (List.range' first n).map rule := by
  induction n generalizing first with
  | zero => rfl
  | succ n ih => simp [count, ih, List.range'_succ]

@[simp] theorem toList_map (f : α → β) (s : Series α) : (s.map f).toList = s.toList.map f := by
  induction s with
  | nil => rfl
  | cons a rest ih => simp [map, ih]

theorem isEmpty_iff {s : Series α} : s.isEmpty = true ↔ s = nil := by cases s <;> simp [isEmpty]

end Series

end ServingSweep
