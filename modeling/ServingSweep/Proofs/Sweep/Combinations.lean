import Mathlib.Data.List.Nodup
import ServingSweep.Proofs.Keyed
import ServingSweep.Proofs.Sweep.GridFirsts
import ServingSweep.Proofs.Sweep.Trail

/-!
Grids as products. The choices of a grid are the tuples of values of its nested axes
(`choices_eq_combinations`), so the number of a choice tells its values digit by digit
(`numbered_of_choices`). Where the keys of the axes differ, and the values of each axis, a choice is
any assignment of the axes, given once, and the rows are the groups of the choices
(`lists_ofAxes`).
-/

namespace ServingSweep.Grid
open scoped List

/-- All lists of a value from each axis, the values of the last axis varying fastest. -/
def tuples : List Axis → List (List Value)
  | [] => [[]]
  | axis :: axes => axis.values.flatMap (fun value => (tuples axes).map (value :: ·))

def combinations (axes : List Axis) : List Overrides :=
  (tuples (nesting axes)).map (assign [] (nesting axes))

def ways : List Axis → Nat
  | [] => 1
  | axis :: axes => axis.values.length * ways axes

theorem foldl_extend_singleton (axes : List Axis) (o : Overrides) :
    axes.foldl extend [o] = (tuples axes).map (assign o axes) := by
  induction axes generalizing o with
  | nil => rfl
  | cons axis axes ih =>
    have first :
        extend [o] axis = axis.values.map (fun value => Keyed.insert o axis.key value) := by
      simp [extend]
    rw [List.foldl_cons, first, foldl_extend, List.flatMap_map, tuples, List.map_flatMap]
    refine congrArg (fun f => axis.values.flatMap f) (funext fun value => ?_)
    rw [ih, List.map_map]
    rfl

theorem choices_eq_combinations {axes : List Axis} (filled : ∃ axis ∈ axes, axis.values ≠ []) :
    choices axes = combinations axes := by
  rw [choices_eq filled, combinations, ← foldl_extend_singleton, groups, ← List.flatMap_def,
    ← foldl_extend, ← List.foldl_append]
  rfl

/-! ### The order of the axes -/

theorem perm_nesting (axes : List Axis) :
    nesting axes ~ axes.filter (fun a => !a.values.isEmpty) := by
  have split := List.filter_append_perm (fun a : Axis => a.key != Overrides.batchSizeKey)
    (axes.filter (fun a => !a.values.isEmpty))
  simpa [nesting, bne] using split

theorem nesting_ne_nil {axes : List Axis} :
    nesting axes ≠ [] ↔ ∃ axis ∈ axes, axis.values ≠ [] := by
  rw [ne_eq, ← List.length_eq_zero_iff, (perm_nesting axes).length_eq, List.length_eq_zero_iff]
  simp

theorem choices_of_nesting_nil {axes : List Axis} (empty : nesting axes = []) :
    choices axes = [] := by
  rw [choices, empty]
  rfl

theorem eq_filter_of_append {α : Type} {p : α → Bool} {before later : List α}
    (unmet : ∀ a ∈ before, p a = false) (meets : ∀ a ∈ later, p a = true) :
    before = (before ++ later).filter (fun a => !p a) ∧ later = (before ++ later).filter p := by
  have low : later.filter (fun a => !p a) = [] := by
    simpa [List.filter_eq_nil_iff] using meets
  have high : before.filter p = [] := by
    simpa [List.filter_eq_nil_iff] using unmet
  refine ⟨?_, ?_⟩
  · rw [List.filter_append, low, List.append_nil, List.filter_eq_self.mpr (by simpa using unmet)]
  · rw [List.filter_append, high, List.nil_append, List.filter_eq_self.mpr meets]

/-- A stable sort by a condition puts what does not meet it first. -/
theorem mergeSort_eq_filter {α : Type} (p : α → Bool) (as : List α) :
    as.mergeSort (fun a b => !p a || p b) = as.filter (fun a => !p a) ++ as.filter p := by
  have trans (a b c : α) (less : !p a || p b) (next : !p b || p c) : !p a || p c := by
    grind
  have total (a b : α) : (!p a || p b) || (!p b || p a) := by grind
  induction as with
  | nil => exact List.mergeSort_nil
  | cons a as ih =>
    obtain ⟨before, later, sorted, rest, smaller⟩ := List.mergeSort_cons trans total a as
    rw [ih] at rest
    have unmet : ∀ b ∈ before, p a = true ∧ p b = false := by
      intro b inside
      simpa using smaller b inside
    cases met : p a with
    | false =>
      -- Nothing is smaller than an item that does not meet the condition.
      have first : before = [] := by
        refine List.eq_nil_iff_forall_not_mem.mpr (fun b inside => ?_)
        exact Bool.false_ne_true (met.symm.trans (unmet b inside).1)
      rw [sorted, first, List.nil_append]
      rw [first, List.nil_append] at rest
      simp [met, rest]
    | true =>
      have meets : ∀ b ∈ later, p b = true := by
        intro b inside
        have pairs := List.pairwise_mergeSort trans total (a :: as)
        rw [sorted, List.pairwise_append, List.pairwise_cons] at pairs
        simpa [met] using pairs.2.1.1 b inside
      obtain ⟨low, high⟩ := eq_filter_of_append (fun b inside => (unmet b inside).2) meets
      rw [← rest, List.filter_append, List.filter_filter, List.filter_filter] at low high
      rw [sorted, low, high]
      simp [met]

theorem nesting_eq_mergeSort (axes : List Axis) :
    nesting axes = (axes.filter (fun a => !a.values.isEmpty)).mergeSort
      (fun a b => !(a.key == Overrides.batchSizeKey) || b.key == Overrides.batchSizeKey) :=
  (mergeSort_eq_filter (fun a : Axis => a.key == Overrides.batchSizeKey) _).symm

/-! ### Digits -/

theorem getElem?_flatMap {α β : Type} {f : α → List β} {n : Nat} {as : List α}
    (length : ∀ a ∈ as, (f a).length = n) (pos : 0 < n) (i : Nat) :
    (as.flatMap f)[i]? = as[i / n]?.bind (fun a => (f a)[i % n]?) := by
  induction as generalizing i with
  | nil => rfl
  | cons a as ih =>
    have first := length a List.mem_cons_self
    rw [List.flatMap_cons]
    rcases Nat.lt_or_ge i n with inside | past
    · rw [List.getElem?_append_left (by omega), Nat.div_eq_of_lt inside, Nat.mod_eq_of_lt inside]
      rfl
    · rw [List.getElem?_append_right (by omega), first, Nat.div_eq_sub_div pos past,
        Nat.mod_eq_sub_mod past, List.getElem?_cons_succ]
      exact ih (fun a inside => length a (List.mem_cons_of_mem _ inside)) _

theorem ways_append (before later : List Axis) :
    ways (before ++ later) = ways before * ways later := by
  induction before with
  | nil => exact (Nat.one_mul _).symm
  | cons axis before ih =>
    rw [List.cons_append, ways, ways, ih, Nat.mul_assoc]

theorem length_tuples (axes : List Axis) : (tuples axes).length = ways axes := by
  induction axes with
  | nil => rfl
  | cons axis axes ih => simp [tuples, ways, ih]

theorem getElem?_tuples_cons {axis : Axis} {axes : List Axis} {i : Nat} {values : List Value}
    (chosen : (tuples (axis :: axes))[i]? = some values) :
    ∃ value rest, values = value :: rest ∧ axis.values[i / ways axes]? = some value ∧
      (tuples axes)[i % ways axes]? = some rest := by
  have pos : 0 < ways axes := by
    obtain ⟨_, -, inside⟩ := List.mem_flatMap.mp (List.mem_of_getElem? chosen)
    obtain ⟨rest, tuple, -⟩ := List.mem_map.mp inside
    exact length_tuples axes ▸ List.length_pos_of_mem tuple
  rw [tuples, getElem?_flatMap (n := ways axes) (by simp [length_tuples]) pos] at chosen
  obtain ⟨value, taken, chosen⟩ := Option.bind_eq_some_iff.mp chosen
  rw [List.getElem?_map, Option.map_eq_some_iff] at chosen
  obtain ⟨rest, tuple, rfl⟩ := chosen
  exact ⟨value, rest, rfl, taken, tuple⟩

/-- The values of the tuple with a number are its digits, each to the base of its axis. -/
theorem getElem?_of_tuples {before later : List Axis} {axis : Axis} {i : Nat} {values : List Value}
    (chosen : (tuples (before ++ axis :: later))[i]? = some values) :
    values[before.length]? = axis.values[i / ways later % axis.values.length]? := by
  induction before generalizing i values with
  | nil =>
    obtain ⟨value, rest, rfl, taken, -⟩ := getElem?_tuples_cons chosen
    have below := (List.getElem?_eq_some_iff.mp taken).1
    rw [Nat.mod_eq_of_lt below, taken]
    rfl
  | cons first before ih =>
    obtain ⟨value, rest, rfl, -, tuple⟩ := getElem?_tuples_cons chosen
    -- What the first axis takes off the number leaves the lower digits as they are.
    have bases : ways (before.append (axis :: later)) =
        ways later * (axis.values.length * ways before) := by
      change ways (before ++ axis :: later) = _
      rw [ways_append, ways, Nat.mul_comm, Nat.mul_assoc, Nat.mul_left_comm]
    have digit := ih tuple
    rw [bases, Nat.mod_mul_right_div_self, Nat.mod_mul_right_mod] at digit
    exact digit

/-! ### Lookups -/

theorem mem_tuples {axes : List Axis} {values : List Value} :
    values ∈ tuples axes ↔ Picks axes values := by
  induction axes generalizing values with
  | nil => simp [tuples, Picks]
  | cons axis axes ih =>
    simp only [Picks] at ih
    simp only [tuples, Picks, List.mem_flatMap, List.mem_map, List.forall₂_cons_left_iff, ih]
    grind

theorem Picks.length {axes : List Axis} {values : List Value} (picks : Picks axes values) :
    values.length = axes.length := (List.Forall₂.length_eq picks).symm

theorem ordered_assign {o : Overrides} (ordered : Keyed.Ordered o) (axes : List Axis)
    (values : List Value) : Keyed.Ordered (assign o axes values) := by
  induction axes generalizing o values with
  | nil => exact ordered
  | cons axis axes ih =>
    cases values with
    | nil => exact ordered
    | cons value values => exact ih (Keyed.ordered_insert ordered axis.key value) values

theorem get?_assign_of_not_mem {axes : List Axis} {key : String} (other : key ∉ axes.map Axis.key)
    (o : Overrides) (values : List Value) :
    Keyed.get? (assign o axes values) key = Keyed.get? o key := by
  induction axes generalizing o values with
  | nil => rfl
  | cons axis axes ih =>
    rw [List.map_cons, List.mem_cons, not_or] at other
    cases values with
    | nil => rfl
    | cons value values =>
      have kept := ih other.2 (Keyed.insert o axis.key value) values
      rw [Keyed.get?_insert, if_neg other.1] at kept
      exact kept

/-- Of the axes with one key the last one counts. -/
theorem get?_assign {before later : List Axis} {axis : Axis}
    (last : axis.key ∉ later.map Axis.key) {values : List Value}
    (length : values.length = (before ++ axis :: later).length) (o : Overrides) :
    Keyed.get? (assign o (before ++ axis :: later) values) axis.key = values[before.length]? := by
  induction before generalizing o values with
  | nil =>
    obtain ⟨value, values, rfl⟩ := List.exists_of_length_succ values length
    have kept := get?_assign_of_not_mem last (Keyed.insert o axis.key value) values
    rw [Keyed.get?_insert, if_pos rfl] at kept
    exact kept
  | cons first before ih =>
    obtain ⟨value, values, rfl⟩ := List.exists_of_length_succ values length
    exact ih (Nat.succ.inj length) (Keyed.insert o first.key value)

/-- The choice with number `i`. The value for an axis is a digit of the number, to the base of the
axis and with the later axes as the lower digits. -/
structure Numbered (axes : List Axis) (i : Nat) (o : Overrides) : Prop where
  ordered : Keyed.Ordered o
  nonempty : o ≠ []
  digit : ∀ before axis later, axes = before ++ axis :: later →
    axis.key ∉ later.map Axis.key →
    Keyed.get? o axis.key = axis.values[i / ways later % axis.values.length]?
  only : ∀ key, key ∉ axes.map Axis.key → Keyed.get? o key = none

theorem numbered_of_choices {axes : List Axis} (filled : ∃ axis ∈ axes, axis.values ≠ []) {i : Nat}
    {o : Overrides} (chosen : (choices axes)[i]? = some o) : Numbered (nesting axes) i o := by
  have nonempty : o.isBaseline = false := by
    have kept := (List.mem_filter.mp (List.mem_of_getElem? chosen)).2
    simpa using kept
  rw [choices_eq_combinations filled, combinations, List.getElem?_map,
    Option.map_eq_some_iff] at chosen
  obtain ⟨values, tuple, rfl⟩ := chosen
  have picks := mem_tuples.mp (List.mem_of_getElem? tuple)
  refine ⟨ordered_assign .nil _ _, List.isEmpty_eq_false_iff.mp nonempty, ?_, ?_⟩
  · intro before axis later nested last
    rw [nested] at picks tuple ⊢
    rw [get?_assign last picks.length, getElem?_of_tuples tuple]
  · intro key other
    exact get?_assign_of_not_mem other [] values

theorem length_choices {axes : List Axis} (filled : ∃ axis ∈ axes, axis.values ≠ []) :
    (choices axes).length = ways (nesting axes) := by
  rw [choices_eq_combinations filled, combinations, List.length_map, length_tuples]

/-! ### Assignments -/

/-- The overrides set each of the axes to one of its values, and nothing else. -/
structure Assigns (axes : List Axis) (o : Overrides) : Prop where
  ordered : Keyed.Ordered o
  value : ∀ axis ∈ axes, ∃ value ∈ axis.values, Keyed.get? o axis.key = some value
  only : ∀ key, key ∉ axes.map Axis.key → Keyed.get? o key = none

theorem last_of_nodup {axes before later : List Axis} {axis : Axis}
    (keys : (axes.map Axis.key).Nodup) (split : axes = before ++ axis :: later) :
    axis.key ∉ later.map Axis.key := by
  rw [split, List.map_append, List.map_cons] at keys
  exact (List.nodup_cons.mp (List.nodup_append.mp keys).2.1).1

/-- Axes with distinct keys are assigned in as many ways as they have tuples. -/
theorem assigns_iff {axes : List Axis} (keys : (axes.map Axis.key).Nodup) {o : Overrides} :
    Assigns axes o ↔ o ∈ (tuples axes).map (assign [] axes) := by
  rw [List.mem_map]
  constructor
  · intro assigned
    obtain ⟨values, all⟩ := exists_forall₂ assigned.value
    have picks : Picks axes values := all.imp (fun _ _ both => both.1)
    refine ⟨values, mem_tuples.mpr picks, ?_⟩
    refine (ordered_assign .nil axes values).ext assigned.ordered (fun key => ?_)
    by_cases known : key ∈ axes.map Axis.key
    · obtain ⟨axis, member, rfl⟩ := List.mem_map.mp known
      obtain ⟨before, later, split⟩ := List.append_of_mem member
      have last := last_of_nodup keys split
      subst split
      obtain ⟨value, taken, -, found⟩ := exists_getElem?_of_forall₂ all
      rw [get?_assign last picks.length, taken, found]
    · rw [get?_assign_of_not_mem known, assigned.only key known]
      rfl
  · rintro ⟨values, tuple, rfl⟩
    have picks := mem_tuples.mp tuple
    refine ⟨ordered_assign .nil axes values, ?_, ?_⟩
    · intro axis member
      obtain ⟨before, later, split⟩ := List.append_of_mem member
      have last := last_of_nodup keys split
      subst split
      obtain ⟨value, taken, inside⟩ := exists_getElem?_of_forall₂ picks
      exact ⟨value, inside, (get?_assign last picks.length []).trans taken⟩
    · intro key other
      exact get?_assign_of_not_mem other [] values

theorem assign_inj {axes : List Axis} (keys : (axes.map Axis.key).Nodup) {o : Overrides}
    {values values' : List Value} (length : values.length = axes.length)
    (length' : values'.length = axes.length)
    (same : assign o axes values = assign o axes values') : values = values' := by
  refine List.ext_getElem? (fun j => ?_)
  rcases Nat.lt_or_ge j axes.length with inside | past
  · have split : axes = axes.take j ++ axes[j] :: axes.drop (j + 1) := by
      rw [List.getElem_cons_drop, List.take_append_drop]
    have last := last_of_nodup keys split
    have place : (axes.take j).length = j := List.length_take_of_le inside.le
    have found (values : List Value) (length : values.length = axes.length) :
        Keyed.get? (assign o axes values) axes[j].key = values[j]? := by
      have all := get?_assign last (length.trans (congrArg List.length split)) o
      rwa [← split, place] at all
    rw [← found values length, ← found values' length', same]
  · rw [List.getElem?_eq_none (by omega), List.getElem?_eq_none (by omega)]

theorem nodup_tuples {axes : List Axis} (values : ∀ axis ∈ axes, axis.values.Nodup) :
    (tuples axes).Nodup := by
  induction axes with
  | nil => exact List.nodup_singleton []
  | cons axis axes ih =>
    have later := ih (fun axis inside => values axis (List.mem_cons_of_mem _ inside))
    rw [tuples, List.nodup_flatMap]
    refine ⟨fun value _ => later.map (fun _ _ same => (List.cons.inj same).2), ?_⟩
    refine (values axis List.mem_cons_self).imp ?_
    intro value value' different t first second
    obtain ⟨_, -, rfl⟩ := List.mem_map.mp first
    obtain ⟨_, -, same⟩ := List.mem_map.mp second
    exact different (List.cons.inj same).1.symm

theorem nodup_assigned {axes : List Axis} (keys : (axes.map Axis.key).Nodup)
    (values : ∀ axis ∈ axes, axis.values.Nodup) : ((tuples axes).map (assign [] axes)).Nodup := by
  refine List.Nodup.map_on ?_ (nodup_tuples values)
  intro picked tuple picked' tuple' same
  exact assign_inj keys (mem_tuples.mp tuple).length (mem_tuples.mp tuple').length same

theorem sublist_others (axes : List Axis) : others axes <+ axes :=
  List.filter_sublist.trans List.filter_sublist

theorem sublist_sizes (axes : List Axis) : sizes axes <+ axes :=
  List.filter_sublist.trans List.filter_sublist

theorem nodup_nesting {axes : List Axis} (keys : (axes.map Axis.key).Nodup) :
    ((nesting axes).map Axis.key).Nodup :=
  ((perm_nesting axes).map Axis.key).nodup_iff.mpr
    (keys.sublist (List.filter_sublist.map Axis.key))

theorem mem_of_nesting {axes : List Axis} {axis : Axis} (member : axis ∈ nesting axes) :
    axis ∈ axes := List.filter_sublist.subset ((perm_nesting axes).subset member)

theorem nodup_choices {axes : List Axis} (filled : ∃ axis ∈ axes, axis.values ≠ [])
    (keys : (axes.map Axis.key).Nodup) (values : ∀ axis ∈ axes, axis.values.Nodup) :
    (choices axes).Nodup := by
  rw [choices_eq_combinations filled]
  exact nodup_assigned (nodup_nesting keys) (fun axis inside => values axis (mem_of_nesting inside))

theorem existsUnique_getElem? {α : Type} {as : List α} (distinct : as.Nodup) {a : α}
    (member : a ∈ as) : ∃! i : Nat, as[i]? = some a := by
  obtain ⟨i, found⟩ := List.mem_iff_getElem?.mp member
  have inside : i < as.length := (List.getElem?_eq_some_iff.mp found).1
  refine ⟨i, found, fun j same => ?_⟩
  exact ((List.getElem?_inj inside distinct).mp (found.trans same.symm)).symm

/-! ### Rows -/

/-- The number of batch sizes, one if there is no axis for them. -/
def width (axes : List Axis) : Nat :=
  match (sizes axes).head? with
  | none => 1
  | some axis => axis.values.length

theorem ways_sizes {axes : List Axis} (keys : (axes.map Axis.key).Nodup) :
    ways (sizes axes) = width axes := by
  have distinct : ((sizes axes).map Axis.key).Nodup :=
    keys.sublist ((sublist_sizes axes).map Axis.key)
  have same : ∀ axis ∈ sizes axes, axis.key = Overrides.batchSizeKey :=
    fun axis inside => (mem_sizes.mp inside).2.1
  rw [width]
  match sizes axes, distinct, same with
  | [], _, _ => rfl
  | [axis], _, _ => exact Nat.mul_one _
  | axis :: next :: _, distinct, same =>
    have first := same axis (by simp)
    have second := same next (by simp)
    exact absurd (first.trans second.symm) (by simp_all)

def groupOf (axes : List Axis) (o : Overrides) : List Overrides := (sizes axes).foldl extend [o]

theorem groups_eq (axes : List Axis) :
    groups axes = ((tuples (others axes)).map (assign [] (others axes))).map (groupOf axes) := by
  rw [← foldl_extend_singleton]
  rfl

theorem length_groupOf (axes : List Axis) (o : Overrides) :
    (groupOf axes o).length = ways (sizes axes) := by
  rw [groupOf, foldl_extend_singleton, List.length_map, length_tuples]

theorem group_common {axes : List Axis} {o : Overrides}
    (assigned : o ∈ (tuples (others axes)).map (assign [] (others axes))) :
    groupOf axes o ≠ [] ∧ ∀ x ∈ groupOf axes o, x.rowKey = o := by
  rw [← foldl_extend_singleton] at assigned
  obtain ⟨⟨rest, same⟩, common⟩ := group_eq assigned
  exact ⟨List.ne_nil_of_mem (same ▸ List.mem_cons_self), common⟩

/-- Where assignments come once, the rows are the groups. -/
theorem lists_ofAxes {axes : List Axis} (filled : ∃ axis ∈ axes, axis.values ≠ [])
    (keys : (axes.map Axis.key).Nodup) (values : ∀ axis ∈ axes, axis.values.Nodup) :
    (ofAxes axes).lists = groups axes := by
  have distinct : ((tuples (others axes)).map (assign [] (others axes))).Nodup :=
    nodup_assigned (keys.sublist ((sublist_others axes).map Axis.key))
      (fun axis inside => values axis ((sublist_others axes).subset inside))
  rw [ofAxes, rows, Rows.lists_ofBlocks, List.splitBy_eq_iff]
  refine ⟨choices_eq filled, ?_, ?_, ?_⟩
  · rw [groups_eq, List.mem_map]
    rintro ⟨o, assigned, empty⟩
    exact (group_common assigned).1 empty
  · intro group member
    rw [groups_eq, List.mem_map] at member
    obtain ⟨o, assigned, rfl⟩ := member
    have common := (group_common assigned).2
    refine List.Pairwise.isChain (List.pairwise_of_forall_mem_list ?_)
    intro x inside y inside'
    exact decide_eq_true ((common x inside).trans (common y inside').symm)
  · rw [groups_eq, List.isChain_map]
    refine List.IsChain.imp_of_mem_imp ?_ distinct.isChain
    intro o next assigned assigned' different
    obtain ⟨nonempty, common⟩ := group_common assigned
    obtain ⟨nonempty', common'⟩ := group_common assigned'
    refine ⟨nonempty, nonempty', decide_eq_false ?_⟩
    rw [common _ (List.getLast_mem nonempty), common' _ (List.head_mem nonempty')]
    exact different

theorem take_drop_flatten {α : Type} {n : Nat} {lists : List (List α)}
    (length : ∀ list ∈ lists, list.length = n) {r : Nat} {list : List α}
    (found : lists[r]? = some list) : (lists.flatten.drop (r * n)).take n = list := by
  induction lists generalizing r with
  | nil => cases found
  | cons first lists ih =>
    have own : first.length = n := length first List.mem_cons_self
    rw [List.flatten_cons]
    cases r with
    | zero =>
      obtain rfl : first = list := Option.some.inj found
      rw [Nat.zero_mul, List.drop_zero, List.take_left' own]
    | succ r =>
      have step : (r + 1) * n = first.length + r * n := by
        rw [own, Nat.succ_mul, Nat.add_comm]
      rw [step, List.drop_length_add_append]
      exact ih (fun list inside => length list (List.mem_cons_of_mem _ inside)) found

/-- The rows of a grid in which nothing comes twice. -/
structure Grouped (axes : List Axis) (rows : List (List Overrides)) : Prop where
  longest : rows = (choices axes).splitBy (fun a b => decide (a.rowKey = b.rowKey))
  count : rows.length = ways (others axes)
  group : ∀ r row, rows[r]? = some row →
    row.length = width axes ∧ row = ((choices axes).drop (r * width axes)).take (width axes) ∧
      ∃ o, Assigns (others axes) o ∧ ∀ x ∈ row, x.rowKey = o
  once : ∀ o, Assigns (others axes) o →
    ∃! r : Nat, ∃ row, rows[r]? = some row ∧ ∀ x ∈ row, x.rowKey = o

theorem grouped_ofAxes {axes : List Axis} (filled : ∃ axis ∈ axes, axis.values ≠ [])
    (keys : (axes.map Axis.key).Nodup) (values : ∀ axis ∈ axes, axis.values.Nodup) :
    Grouped axes (ofAxes axes).lists := by
  have apart : ((others axes).map Axis.key).Nodup :=
    keys.sublist ((sublist_others axes).map Axis.key)
  have distinct : ((tuples (others axes)).map (assign [] (others axes))).Nodup :=
    nodup_assigned apart (fun axis inside => values axis ((sublist_others axes).subset inside))
  have lists := (lists_ofAxes filled keys values).trans (groups_eq axes)
  have lengths : ∀ row ∈ (ofAxes axes).lists, row.length = width axes := by
    rw [lists]
    intro row member
    obtain ⟨o, -, rfl⟩ := List.mem_map.mp member
    rw [length_groupOf, ways_sizes keys]
  refine ⟨Rows.lists_ofBlocks _ _, ?_, ?_, ?_⟩
  · rw [lists, List.length_map, List.length_map, length_tuples]
  · intro r row found
    have flat : (ofAxes axes).lists.flatten = choices axes :=
      (Rows.flatten_lists _).trans (Rows.items_ofBlocks _ _)
    have cut := take_drop_flatten lengths found
    rw [flat] at cut
    refine ⟨lengths row (List.mem_of_getElem? found), cut.symm, ?_⟩
    have member := List.mem_of_getElem? found
    rw [lists] at member
    obtain ⟨o, assigned, rfl⟩ := List.mem_map.mp member
    exact ⟨o, (assigns_iff apart).mpr assigned, (group_common assigned).2⟩
  · intro o assigned
    rw [assigns_iff apart] at assigned
    obtain ⟨r, found, only⟩ := existsUnique_getElem? distinct assigned
    refine ⟨r, ⟨groupOf axes o, ?_, (group_common assigned).2⟩, ?_⟩
    · rw [lists, List.getElem?_map, found]
      rfl
    · rintro r' ⟨row, found', common⟩
      rw [lists, List.getElem?_map, Option.map_eq_some_iff] at found'
      obtain ⟨o', found', rfl⟩ := found'
      obtain ⟨nonempty, own⟩ := group_common (List.mem_of_getElem? found')
      obtain ⟨x, inside⟩ := List.exists_mem_of_ne_nil _ nonempty
      obtain rfl : o' = o := (own x inside).symm.trans (common x inside)
      exact only r' found'

/-- The choices number the product of the axes with values, those of the batch size moved to the
end. Without repetition each assignment is one choice, and each assignment of the other axes one
row. -/
theorem choices_product (axes : List Axis) :
    (ofAxes axes).items = choices axes ∧
    nesting axes = (axes.filter (fun a => !a.values.isEmpty)).mergeSort
      (fun a b => !(a.key == Overrides.batchSizeKey) || b.key == Overrides.batchSizeKey) ∧
    (nesting axes = [] → choices axes = []) ∧
    (nesting axes ≠ [] →
      (choices axes).length = ways (nesting axes) ∧
      (∀ i o, (choices axes)[i]? = some o → Numbered (nesting axes) i o) ∧
      ((axes.map Axis.key).Nodup → (∀ axis ∈ axes, axis.values.Nodup) →
        (∀ o, Assigns (nesting axes) o → ∃! i : Nat, (choices axes)[i]? = some o) ∧
        Grouped axes (ofAxes axes).lists)) := by
  refine ⟨Rows.items_ofBlocks _ _, nesting_eq_mergeSort axes, choices_of_nesting_nil,
    fun used => ?_⟩
  have filled := nesting_ne_nil.mp used
  refine ⟨length_choices filled, fun i o chosen => numbered_of_choices filled chosen, ?_⟩
  refine fun keys values => ⟨fun o assigned => ?_, grouped_ofAxes filled keys values⟩
  refine existsUnique_getElem? (nodup_choices filled keys values) ?_
  rw [choices_eq_combinations filled]
  exact (assigns_iff (nodup_nesting keys)).mp assigned

theorem choices_product_sizesFirst :
    let axes : List Axis :=
      [⟨"max_batch_size", [.word 1, .word 2, .word 4]⟩, ⟨"priority", [.word 0, .word 7]⟩]
    nesting axes = [⟨"priority", [.word 0, .word 7]⟩, ⟨"max_batch_size", [.word 1, .word 2, .word 4]⟩] ∧
    (choices axes).length = 6 ∧
      Numbered (nesting axes) 4 [("max_batch_size", .word 2), ("priority", .word 7)] ∧
      (∃! i : Nat, (choices axes)[i]? =
        some [("max_batch_size", .word 4), ("priority", .word 0)]) ∧
      Grouped axes (ofAxes axes).lists := by
  intro axes
  have used : nesting axes ≠ [] := by decide
  obtain ⟨length, numbered, unrepeated⟩ := (choices_product axes).2.2.2 used
  obtain ⟨once, grouped⟩ := unrepeated (by decide) (by decide)
  refine ⟨by decide, length, numbered 4 _ (by decide), once _ ⟨by decide, ?_, ?_⟩, grouped⟩
  · decide
  · intro key other
    have keys : (nesting axes).map Axis.key = ["priority", "max_batch_size"] := by decide
    refine Keyed.get?_eq_none_iff.mpr (fun known => other ?_)
    rw [keys]
    simpa [Keyed.keys, or_comm] using known

end ServingSweep.Grid
