/-!
# Entries in key order

A map from text keys is the list of its entries, keys increasing by code point.
`get?_insert` says what an update changes, and `ordered_insert` that the order
survives it.
-/

namespace ServingSweep

abbrev Keyed (α : Type) := List (String × α)

namespace Keyed

variable {α : Type}

/-- Keys increase from entry to entry, so no key occurs twice. -/
def Ordered (m : Keyed α) : Prop := m.Pairwise (fun a b => a.1 < b.1)

instance (m : Keyed α) : Decidable m.Ordered :=
  inferInstanceAs (Decidable (m.Pairwise (fun a b => a.1 < b.1)))

def get? (m : Keyed α) (key : String) : Option α :=
  match m with
  | [] => none
  | (k, v) :: rest => if key = k then some v else get? rest key

def insert (m : Keyed α) (key : String) (value : α) : Keyed α :=
  match m with
  | [] => [(key, value)]
  | (k, v) :: rest =>
    if key < k then (key, value) :: (k, v) :: rest
    else if key = k then (key, value) :: rest
    else (k, v) :: insert rest key value

def erase (m : Keyed α) (key : String) : Keyed α := m.filter (fun e => e.1 != key)

/-- Entries in any order; of two with one key the later stays. -/
def ofList (entries : List (String × α)) : Keyed α :=
  entries.foldl (fun m e => m.insert e.1 e.2) []

def keys (m : Keyed α) : List String := m.map Prod.fst

/-! ### Lookup after an update -/

theorem get?_insert (m : Keyed α) (key k : String) (value : α) :
    (m.insert key value).get? k = if k = key then some value else m.get? k := by
  induction m with
  | nil => simp [insert, get?]
  | cons e rest ih =>
    obtain ⟨l, v⟩ := e
    simp only [insert]
    split
    · simp only [get?]
    · split
      · next h => subst h; simp only [get?]; split <;> rfl
      · next h => simp only [get?, ih]; grind

/-! ### Order after an update -/

theorem mem_insert {m : Keyed α} {key : String} {value : α} {e : String × α}
    (h : e ∈ m.insert key value) : e = (key, value) ∨ e ∈ m := by
  induction m with
  | nil => simpa [insert] using h
  | cons f rest ih =>
    simp only [insert] at h
    split at h
    · simpa using h
    · split at h <;> simp only [List.mem_cons] at h ⊢ <;> grind

theorem ordered_insert {m : Keyed α} (h : m.Ordered) (key : String) (value : α) :
    (m.insert key value).Ordered := by
  induction m with
  | nil => simp [insert, Ordered]
  | cons e rest ih =>
    obtain ⟨k, v⟩ := e
    simp only [Ordered, List.pairwise_cons] at h ih ⊢
    obtain ⟨head, tail⟩ := h
    simp only [insert]
    split
    · next less =>
      refine List.pairwise_cons.2 ⟨?_, List.pairwise_cons.2 ⟨head, tail⟩⟩
      intro a mem
      rcases List.mem_cons.1 mem with rfl | mem
      · exact less
      · exact String.lt_trans less (head a mem)
    · split
      · next same => subst same; exact List.pairwise_cons.2 ⟨head, tail⟩
      · next notLess different =>
        refine List.pairwise_cons.2 ⟨?_, ih tail⟩
        intro a mem
        rcases mem_insert mem with rfl | mem
        · exact Std.lt_of_le_of_ne (String.not_lt.1 notLess) (fun same => different same.symm)
        · exact head a mem

theorem ordered_ofList (entries : List (String × α)) : (ofList entries).Ordered := by
  suffices h : ∀ m : Keyed α, m.Ordered →
      (entries.foldl (fun m e => m.insert e.1 e.2) m).Ordered from h [] List.Pairwise.nil
  induction entries with
  | nil => exact fun _ h => h
  | cons e rest ih => exact fun m h => ih _ (ordered_insert h _ _)

end Keyed

end ServingSweep
