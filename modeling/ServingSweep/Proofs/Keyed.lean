import Mathlib.Data.List.Nodup
import Mathlib.Data.List.Perm.Basic
import ServingSweep.Keyed

/-!
Entries with distinct keys make the same map in any order. An ordered list of entries is the map it
makes. Entries of one key that agree give that key their value.
-/

namespace ServingSweep.Keyed
variable {α : Type} {m n : Keyed α} {entries : List (String × α)} {key : String} {value : α}

theorem perm_insert (new : key ∉ m.keys) : (m.insert key value).Perm ((key, value) :: m) := by
  induction m with
  | nil => exact .refl _
  | cons e rest ih =>
    obtain ⟨k, v⟩ := e
    rw [keys, List.map_cons, List.mem_cons, not_or] at new
    rw [insert]
    split
    · exact .refl _
    · rw [if_neg new.1]
      exact ((ih new.2).cons (k, v)).trans (.swap _ _ _)

theorem keys_perm (perm : m.Perm n) : m.keys.Perm n.keys := perm.map _

theorem perm_ofList (distinct : (keys entries).Nodup) : (ofList entries).Perm entries := by
  have step : ∀ (entries : List (String × α)) (m : Keyed α), (keys (entries ++ m)).Nodup →
      (entries.foldl (fun m e => m.insert e.1 e.2) m).Perm (entries ++ m) := by
    intro entries
    induction entries with
    | nil => exact fun m _ => .refl m
    | cons e entries ih =>
      intro m distinct
      have moved : (entries ++ (e.1, e.2) :: m).Perm (e :: entries ++ m) :=
        List.perm_middle
      have later := (List.nodup_cons.mp distinct).1
      have inserted : (m.insert e.1 e.2).Perm ((e.1, e.2) :: m) := by
        refine perm_insert (fun old => later ?_)
        obtain ⟨f, member, same⟩ := List.mem_map.mp old
        exact List.mem_map.mpr ⟨f, List.mem_append_right _ member, same⟩
      have swapped := (inserted.append_left entries).trans moved
      exact (ih _ ((keys_perm swapped).nodup_iff.mpr distinct)).trans swapped
  have all := step entries [] (by rwa [List.append_nil])
  rwa [List.append_nil] at all

theorem Ordered.nodup (ordered : m.Ordered) : m.keys.Nodup :=
  (List.pairwise_map.mpr ordered).imp (fun less => String.ne_of_lt less)

theorem Ordered.eq_of_perm (left : m.Ordered) (right : n.Ordered) (perm : m.Perm n) : m = n :=
  perm.eq_of_pairwise (fun _ _ _ _ less greater => absurd greater (String.lt_asymm less)) left right

theorem ordered_congr {β : Type} {n : Keyed β} (same : m.keys = n.keys) :
    m.Ordered ↔ n.Ordered := by
  have ordered {γ : Type} (l : Keyed γ) : l.Ordered ↔ l.keys.Pairwise (· < ·) :=
    List.pairwise_map.symm
  rw [ordered, ordered, same]

/-! ### Other values under the same keys -/

section
variable {β : Type} (f : α → β)

theorem insert_map (m : Keyed α) (key : String) (value : α) :
    insert (m.map (fun e => (e.1, f e.2))) key (f value) =
      (m.insert key value).map (fun e => (e.1, f e.2)) := by
  induction m with
  | nil => rfl
  | cons e rest ih =>
    obtain ⟨k, v⟩ := e
    rw [List.map_cons, insert, insert]
    split
    · rfl
    · split
      · rfl
      · rw [ih, List.map_cons]

theorem ofList_map (entries : List (String × α)) :
    ofList (entries.map (fun e => (e.1, f e.2))) =
      (ofList entries).map (fun e => (e.1, f e.2)) := by
  rw [ofList, ofList, List.foldl_map]
  refine @List.foldl_hom (Keyed α) (Keyed β) (String × α) (List.map (fun e => (e.1, f e.2)))
    (fun m e => m.insert e.1 e.2) (fun m e => m.insert e.1 (f e.2)) entries [] ?_
  exact fun m e => insert_map f m e.1 e.2

end

/-! ### Lookup -/

theorem get?_eq_some_iff (distinct : m.keys.Nodup) :
    m.get? key = some value ↔ (key, value) ∈ m := by
  induction m with
  | nil => simp [get?]
  | cons entry rest ih =>
    obtain ⟨k, v⟩ := entry
    obtain ⟨new, distinct⟩ := List.nodup_cons.mp distinct
    rw [get?, List.mem_cons, Prod.mk.injEq]
    by_cases same : key = k
    · subst same
      have absent : (key, value) ∉ rest := fun inside =>
        new (List.mem_map.mpr ⟨_, inside, rfl⟩)
      simp [absent, eq_comm]
    · simp [same, ih distinct]

theorem get?_eq_none_iff : m.get? key = none ↔ key ∉ m.keys := by
  induction m with
  | nil => simp [get?, keys]
  | cons entry rest ih =>
    obtain ⟨k, v⟩ := entry
    rw [get?, keys, List.map_cons, List.mem_cons, not_or]
    by_cases same : key = k
    · simp [same]
    · rw [if_neg same, ih]
      exact (and_iff_right same).symm

theorem get?_of_perm (distinct : m.keys.Nodup) (perm : m.Perm n) (key : String) :
    m.get? key = n.get? key := by
  refine Option.ext (fun value => ?_)
  rw [get?_eq_some_iff distinct, get?_eq_some_iff ((keys_perm perm).nodup_iff.mp distinct),
    perm.mem_iff]

/-- Ordered maps that hold the same are the same. -/
theorem Ordered.ext (left : m.Ordered) (right : n.Ordered)
    (same : ∀ key, m.get? key = n.get? key) : m = n := by
  have members : ∀ e, e ∈ m ↔ e ∈ n := by
    rintro ⟨key, value⟩
    rw [← get?_eq_some_iff left.nodup, same key, get?_eq_some_iff right.nodup]
  have perm : m.Perm n := (List.perm_ext_iff_of_nodup (List.Nodup.of_map Prod.fst left.nodup)
    (List.Nodup.of_map Prod.fst right.nodup)).mpr members
  exact left.eq_of_perm right perm

theorem get?_append (key : String) : get? (m ++ n) key = (m.get? key).or (n.get? key) := by
  induction m with
  | nil => rfl
  | cons entry rest ih =>
    obtain ⟨k, v⟩ := entry
    rw [List.cons_append, get?, get?]
    split
    · rfl
    · exact ih

theorem get?_filter (keep : String → Bool) (key : String) :
    get? (m.filter (fun e => keep e.1)) key = if keep key then m.get? key else none := by
  induction m with
  | nil => simp [get?]
  | cons entry rest ih =>
    obtain ⟨k, v⟩ := entry
    rw [List.filter_cons]
    by_cases same : key = k
    · subst same
      cases kept : keep key with
      | true => simp [get?]
      | false => simpa [kept] using ih
    · cases kept : keep k with
      | true => simpa [get?, same] using ih
      | false => simpa [get?, same] using ih

theorem get?_ofList (distinct : (keys entries).Nodup) (key : String) :
    (ofList entries).get? key = get? entries key :=
  (get?_of_perm distinct (perm_ofList distinct).symm key).symm

/-- In whatever order its entries come, a map is made of them again. -/
theorem ofList_of_perm (ordered : m.Ordered) (perm : entries.Perm m) : ofList entries = m :=
  (ordered_ofList entries).eq_of_perm ordered
    ((perm_ofList ((keys_perm perm).nodup_iff.mpr ordered.nodup)).trans perm)

theorem get?_ofList_of_agree (agree : ∀ e ∈ entries, e.1 = key → e.2 = value)
    (member : key ∈ keys entries) : (ofList entries).get? key = some value := by
  have later : ∀ (entries : List (String × α)) (m : Keyed α),
      (∀ e ∈ entries, e.1 = key → e.2 = value) → key ∈ keys entries ∨ m.get? key = some value →
      (entries.foldl (fun m e => m.insert e.1 e.2) m).get? key = some value := by
    intro entries
    induction entries with
    | nil => exact fun m _ found => found.resolve_left List.not_mem_nil
    | cons e entries ih =>
      intro m agree found
      refine ih _ (fun e inside => agree e (List.mem_cons_of_mem _ inside)) ?_
      rw [get?_insert]
      by_cases same : key = e.1
      · rw [if_pos same, agree e List.mem_cons_self same.symm]
        exact .inr rfl
      · rw [if_neg same]
        exact found.imp_left (fun member => (List.mem_cons.mp member).resolve_left same)
  exact later entries [] agree (.inl member)

end ServingSweep.Keyed
