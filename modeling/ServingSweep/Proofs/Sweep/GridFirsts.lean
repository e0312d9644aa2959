import Mathlib.Data.List.Forall2
import ServingSweep.Proofs.Sweep.Rows
import ServingSweep.Sweep.Grid

/-!
The first items of the rows of a grid. The choices come in groups that differ in the batch size
only, and a row consists of whole groups, so by `exists_row_firstOf` every assignment of the other
axes heads a row, with the first batch size.
-/

namespace ServingSweep

namespace Keyed
variable {α : Type}

theorem insert_insert (m : Keyed α) (key : String) (first second : α) :
    (m.insert key first).insert key second = m.insert key second := by
  induction m with
  | nil => simp [insert]
  | cons entry rest ih =>
    obtain ⟨k, v⟩ := entry
    by_cases less : key < k
    · simp [insert, less]
    · by_cases same : key = k
      · subst same
        simp [insert]
      · simp [insert, less, same, ih]

theorem erase_insert (m : Keyed α) (key : String) (value : α) :
    (m.insert key value).erase key = m.erase key := by
  induction m with
  | nil => simp [insert, erase]
  | cons entry rest ih =>
    obtain ⟨k, v⟩ := entry
    by_cases less : key < k
    · simp [insert, less, erase]
    · by_cases same : key = k
      · subst same
        simp [insert, erase]
      · simp only [erase] at ih
        simp [insert, less, same, erase, ih, List.filter_cons]

theorem erase_eq_self {m : Keyed α} {key : String} (absent : ∀ e ∈ m, e.1 ≠ key) :
    m.erase key = m := by
  refine List.filter_eq_self.mpr ?_
  intro e member
  simpa using absent e member

theorem insert_ne_nil (m : Keyed α) (key : String) (value : α) : m.insert key value ≠ [] := by
  unfold insert
  split
  · simp
  · split
    · simp
    · split
      · simp
      · simp

end Keyed

/-! ### Rows of whole groups -/

namespace Rows
variable {α κ : Type} [DecidableEq κ] {key : α → κ}

/-- A group with one key is the front of one row. -/
theorem foldr_prepend_group {a : α} {as : List α} (same : ∀ b ∈ as, key b = key a)
    (rows : List (Row α)) :
    ∃ tail later, (a :: as).foldr (prepend key) rows = ⟨a, tail⟩ :: later ∧
      ∀ row ∈ later, row ∈ rows := by
  induction as generalizing a with
  | nil =>
    cases rows with
    | nil => exact ⟨[], [], rfl, fun row member => member⟩
    | cons row rows =>
      simp only [List.foldr_cons, List.foldr_nil, prepend]
      split
      · exact ⟨row.toList, rows, rfl, fun _ member => List.mem_cons_of_mem _ member⟩
      · exact ⟨[], row :: rows, rfl, fun _ member => member⟩
  | cons b as ih =>
    have first : key b = key a := same b List.mem_cons_self
    have rest : ∀ c ∈ as, key c = key b := by
      intro c inside
      rw [first]
      exact same c (List.mem_cons_of_mem _ inside)
    obtain ⟨tail, later, group, among⟩ := ih rest
    refine ⟨b :: tail, later, ?_, among⟩
    rw [List.foldr_cons, group, prepend]
    simp only [first, if_true]
    rfl

/-- The first item of a row is the first item of a group. -/
theorem head_of_groups {groups : List (List α)}
    (constant : ∀ group ∈ groups, ∃ a as, group = a :: as ∧ ∀ b ∈ as, key b = key a) :
    ∀ row ∈ groups.flatten.foldr (prepend key) [], ∃ group ∈ groups,
      group.head? = some row.head := by
  induction groups with
  | nil => exact fun row member => nomatch member
  | cons group groups ih =>
    intro row member
    obtain ⟨a, as, rfl, same⟩ := constant group List.mem_cons_self
    rw [List.flatten_cons, List.foldr_append] at member
    obtain ⟨tail, later, rows, among⟩ :=
      foldr_prepend_group same (groups.flatten.foldr (prepend key) [])
    rw [rows] at member
    rcases List.mem_cons.mp member with rfl | inside
    · exact ⟨a :: as, List.mem_cons_self, rfl⟩
    · have later := fun group inside => constant group (List.mem_cons_of_mem _ inside)
      obtain ⟨group, member, head⟩ := ih later row (among row inside)
      exact ⟨group, List.mem_cons_of_mem _ member, head⟩

end Rows

namespace Grid

def others (axes : List Axis) : List Axis :=
  (axes.filter (fun a => !a.values.isEmpty)).filter (·.key != Overrides.batchSizeKey)

def sizes (axes : List Axis) : List Axis :=
  (axes.filter (fun a => !a.values.isEmpty)).filter (·.key == Overrides.batchSizeKey)

def Picks (axes : List Axis) (values : List Value) : Prop :=
  List.Forall₂ (fun axis value => value ∈ axis.values) axes values

def assign (o : Overrides) (axes : List Axis) (values : List Value) : Overrides :=
  (axes.zip values).foldl (fun o pick => Keyed.insert o pick.1.key pick.2) o

def firstSize (axes : List Axis) : Option Value := axes.getLast?.bind (·.values.head?)

def withSize (o : Overrides) : Option Value → Overrides
  | none => o
  | some value => Keyed.insert o Overrides.batchSizeKey value

/-! ### Choices in groups -/

theorem foldl_extend (axes : List Axis) (sets : List Overrides) :
    axes.foldl extend sets = sets.flatMap (fun o => axes.foldl extend [o]) := by
  induction axes generalizing sets with
  | nil => simp
  | cons axis axes ih =>
    have each : extend sets axis = sets.flatMap (fun o => extend [o] axis) := by
      simp [extend]
    calc (axis :: axes).foldl extend sets
        = (extend sets axis).flatMap (fun o => axes.foldl extend [o]) := ih _
      _ = sets.flatMap (fun o => (extend [o] axis).flatMap (fun o => axes.foldl extend [o])) := by
        rw [each, List.flatMap_assoc]
      _ = sets.flatMap (fun o => (axis :: axes).foldl extend [o]) := by
        simp only [← ih, List.foldl_cons]

theorem assign_mem {axes : List Axis} {values : List Value} (picks : Picks axes values)
    {o : Overrides} {sets : List Overrides} (member : o ∈ sets) :
    assign o axes values ∈ axes.foldl extend sets := by
  induction picks generalizing o sets with
  | nil => exact member
  | @cons axis value axes values inside _ ih =>
    have extended : Keyed.insert o axis.key value ∈ extend sets axis :=
      List.mem_flatMap.mpr ⟨o, member, List.mem_map.mpr ⟨value, inside, rfl⟩⟩
    exact ih extended

theorem mem_extend {sets : List Overrides} {axis : Axis} {o : Overrides} :
    o ∈ extend sets axis ↔
      ∃ before ∈ sets, ∃ value ∈ axis.values, Keyed.insert before axis.key value = o := by
  simp [extend]

/-- What setting a value of an axis keeps holds of all choices. -/
theorem forall_foldl_extend {P : Overrides → Prop} {axes : List Axis}
    (kept : ∀ axis ∈ axes, ∀ value ∈ axis.values, ∀ o, P o →
      P (Keyed.insert o axis.key value))
    {sets : List Overrides} (initial : ∀ o ∈ sets, P o) : ∀ o ∈ axes.foldl extend sets, P o := by
  induction axes generalizing sets with
  | nil => exact initial
  | cons axis axes ih =>
    refine ih (fun axis inside => kept axis (List.mem_cons_of_mem _ inside)) ?_
    intro o member
    obtain ⟨before, earlier, value, picked, rfl⟩ := mem_extend.mp member
    exact kept axis List.mem_cons_self value picked before (initial before earlier)

theorem ne_batchSizeKey {axes : List Axis}
    (apart : ∀ axis ∈ axes, axis.key ≠ Overrides.batchSizeKey) {o : Overrides}
    (member : o ∈ axes.foldl extend [[]]) : ∀ e ∈ o, e.1 ≠ Overrides.batchSizeKey := by
  refine forall_foldl_extend (P := fun o => ∀ e ∈ o, e.1 ≠ Overrides.batchSizeKey) ?_ ?_ o member
  · intro axis inside value _ before absent e entry
    rcases Keyed.mem_insert entry with rfl | entry
    · exact apart axis inside
    · exact absent e entry
  · simp

theorem rowKey_group {axes : List Axis} (same : ∀ axis ∈ axes, axis.key = Overrides.batchSizeKey)
    (o : Overrides) : ∀ x ∈ axes.foldl extend [o], x.rowKey = o.rowKey := by
  refine forall_foldl_extend (P := fun x => x.rowKey = o.rowKey) ?_ (by simp)
  intro axis inside value _ before common
  rw [same axis inside, Overrides.rowKey, Keyed.erase_insert]
  exact common

theorem exists_firstSize {axes : List Axis} (filled : axes ≠ [])
    (used : ∀ axis ∈ axes, axis.values ≠ []) : ∃ size, firstSize axes = some size := by
  have last := used _ (List.getLast_mem filled)
  obtain ⟨size, rest, values⟩ := List.exists_cons_of_ne_nil last
  refine ⟨size, ?_⟩
  rw [firstSize, List.getLast?_eq_some_getLast filled, Option.bind_some, values]
  rfl

/-- A group starts with the first batch size: of several axes for it the last one counts. -/
theorem head?_group {axes : List Axis}
    (used : ∀ axis ∈ axes, axis.key = Overrides.batchSizeKey ∧ axis.values ≠ []) (o : Overrides) :
    (axes.foldl extend [o]).head? = some (withSize o (firstSize axes)) := by
  induction axes generalizing o with
  | nil => rfl
  | cons axis axes ih =>
    obtain ⟨key, filled⟩ := used axis List.mem_cons_self
    have later : ∀ axis ∈ axes, axis.key = Overrides.batchSizeKey ∧ axis.values ≠ [] :=
      fun axis inside => used axis (List.mem_cons_of_mem _ inside)
    cases values : axis.values with
    | nil => exact absurd values filled
    | cons value values' =>
      have first : extend [o] axis = Keyed.insert o Overrides.batchSizeKey value ::
          values'.map (fun v => Keyed.insert o Overrides.batchSizeKey v) := by
        simp [extend, values, key]
      have head := ih later (Keyed.insert o Overrides.batchSizeKey value)
      rw [List.foldl_cons, foldl_extend, first, List.flatMap_cons, List.head?_append, head]
      -- A later axis sets the batch size over again, so this one counts only if it is the last.
      cases axes with
      | nil => simp [firstSize, withSize, values]
      | cons next axes =>
        have last : firstSize (axis :: next :: axes) = firstSize (next :: axes) := rfl
        have nonempty : ∀ axis ∈ next :: axes, axis.values ≠ [] :=
          fun axis inside => (later axis inside).2
        obtain ⟨size, found⟩ := exists_firstSize (List.cons_ne_nil next axes) nonempty
        simp [last, found, withSize, Keyed.insert_insert]

/-! ### Rows of a grid -/

theorem mem_others {axes : List Axis} {axis : Axis} :
    axis ∈ others axes ↔
      axis ∈ axes ∧ axis.key ≠ Overrides.batchSizeKey ∧ axis.values ≠ [] := by
  simp [others]

theorem mem_sizes {axes : List Axis} {axis : Axis} :
    axis ∈ sizes axes ↔
      axis ∈ axes ∧ axis.key = Overrides.batchSizeKey ∧ axis.values ≠ [] := by
  simp [sizes]

theorem ne_nil_of_foldl_extend {axes : List Axis} (filled : axes ≠ []) {sets : List Overrides}
    {o : Overrides} (member : o ∈ axes.foldl extend sets) : o ≠ [] := by
  rw [← List.dropLast_append_getLast filled, List.foldl_append] at member
  obtain ⟨before, -, value, -, rfl⟩ := mem_extend.mp member
  exact Keyed.insert_ne_nil _ _ _

def groups (axes : List Axis) : List (List Overrides) :=
  ((others axes).foldl extend [[]]).map (fun o => (sizes axes).foldl extend [o])

theorem choices_eq {axes : List Axis} (filled : ∃ axis ∈ axes, axis.values ≠ []) :
    choices axes = (groups axes).flatten := by
  have nested : (nesting axes).foldl extend [[]] = (groups axes).flatten := by
    rw [groups, ← List.flatMap_def, ← foldl_extend, ← List.foldl_append]
    rfl
  have used : nesting axes ≠ [] := by
    obtain ⟨axis, member, values⟩ := filled
    have inside : axis ∈ others axes ++ sizes axes := by
      rw [List.mem_append, mem_others, mem_sizes]
      by_cases size : axis.key = Overrides.batchSizeKey
      · exact .inr ⟨member, size, values⟩
      · exact .inl ⟨member, size, values⟩
    exact List.ne_nil_of_mem inside
  rw [choices, ← nested, List.filter_eq_self]
  intro o member
  have nonempty : o ≠ [] := ne_nil_of_foldl_extend used member
  simpa [Overrides.isBaseline] using nonempty

/-- A group starts with the first batch size and has its other overrides in common. -/
theorem group_eq {axes : List Axis} {o : Overrides}
    (assigned : o ∈ (others axes).foldl extend [[]]) :
    (∃ rest, (sizes axes).foldl extend [o] = withSize o (firstSize (sizes axes)) :: rest) ∧
      ∀ x ∈ (sizes axes).foldl extend [o], x.rowKey = o := by
  have used : ∀ axis ∈ sizes axes, axis.key = Overrides.batchSizeKey ∧ axis.values ≠ [] :=
    fun axis inside => (mem_sizes.mp inside).2
  refine ⟨List.head?_eq_some_iff.mp (head?_group used o), ?_⟩
  have absent : ∀ e ∈ o, e.1 ≠ Overrides.batchSizeKey :=
    ne_batchSizeKey (fun axis inside => (mem_others.mp inside).2.1) assigned
  have own : o.rowKey = o := Keyed.erase_eq_self absent
  have common : ∀ x ∈ (sizes axes).foldl extend [o], x.rowKey = o.rowKey :=
    rowKey_group (fun axis inside => (used axis inside).1) o
  intro x inside
  rw [common x inside, own]

theorem head_of_choices {axes : List Axis} (filled : ∃ axis ∈ axes, axis.values ≠ [])
    {row : Row Overrides}
    (member : row ∈ (choices axes).foldr (Rows.prepend Overrides.rowKey) []) :
    row.head = withSize row.head.rowKey (firstSize (sizes axes)) := by
  have constant : ∀ group ∈ groups axes, ∃ a as, group = a :: as ∧
      ∀ b ∈ as, b.rowKey = a.rowKey := by
    intro group member
    obtain ⟨o, assigned, rfl⟩ := List.mem_map.mp member
    obtain ⟨⟨rest, same⟩, common⟩ := group_eq assigned
    rw [same] at common ⊢
    have first := common _ List.mem_cons_self
    refine ⟨_, rest, rfl, fun b inside => ?_⟩
    rw [first]
    exact common b (List.mem_cons_of_mem _ inside)
  rw [choices_eq filled] at member
  obtain ⟨group, among, head⟩ := Rows.head_of_groups constant row member
  obtain ⟨o, assigned, rfl⟩ := List.mem_map.mp among
  obtain ⟨⟨rest, same⟩, common⟩ := group_eq assigned
  rw [same] at head common
  obtain first : withSize o (firstSize (sizes axes)) = row.head := Option.some.inj head
  rw [← first, common _ List.mem_cons_self]

/-- Every assignment of the other axes heads a row, with the first batch size. -/
theorem exists_row_firstOf {axes : List Axis} (filled : ∃ axis ∈ axes, axis.values ≠ [])
    {values : List Value} (picks : Picks (others axes) values) :
    ∃ row ∈ (ofAxes axes).lists,
      row.head? = some (withSize (assign [] (others axes) values) (firstSize (sizes axes))) := by
  let o := assign [] (others axes) values
  have assigned : o ∈ (others axes).foldl extend [[]] := assign_mem picks List.mem_cons_self
  obtain ⟨⟨rest, group⟩, common⟩ := group_eq assigned
  rw [group] at common
  let first := withSize o (firstSize (sizes axes))
  have chosen : first ∈ choices axes := by
    rw [choices_eq filled]
    refine List.mem_flatten.mpr ⟨_, List.mem_map.mpr ⟨o, assigned, rfl⟩, ?_⟩
    rw [group]
    exact List.mem_cons_self
  have items := Rows.items_ofBlocks Overrides.rowKey (choices axes)
  rw [Rows.items, Rows.ofBlocks, Series.toList_ofList] at items
  rw [← items] at chosen
  obtain ⟨row, member, inside⟩ := List.mem_flatMap.mp chosen
  refine ⟨row.toList, ?_, ?_⟩
  · rw [ofAxes, rows, Rows.lists, Rows.ofBlocks, Series.toList_ofList]
    exact List.mem_map.mpr ⟨row, member, rfl⟩
  · have blocks := (Rows.blocks_foldr Overrides.rowKey (choices axes)).1 row member
    have key : first.rowKey = row.head.rowKey := by
      rcases List.mem_cons.mp inside with same | later
      · rw [same]
      · exact blocks first later
    rw [common first List.mem_cons_self] at key
    have head : row.head = withSize row.head.rowKey (firstSize (sizes axes)) :=
      head_of_choices filled member
    rw [← key] at head
    exact congrArg some head

end Grid
end ServingSweep
