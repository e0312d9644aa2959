import Mathlib.Data.Option.Basic
import ServingSweep.Binary64

/-!
The first of the largest items of a list, each with a value that may be missing. From two lists
together it is picked by the larger of their own values (`Picks.append`), and what is picked from
another list of the same values ties with it (`Picks.ties`).
-/

namespace ServingSweep

namespace Binary64
variable {x x' y y' z : Binary64}

theorem le_iff : x.le y = true ↔ x.isNaN = false ∧ y.isNaN = false ∧ x.key ≤ y.key := by
  simp [le, and_assoc]

theorem lt_iff : x.lt y = true ↔ x.isNaN = false ∧ y.isNaN = false ∧ x.key < y.key := by
  simp [lt, and_assoc]

theorem le_refl_of_finite (finite : x.isFinite = true) : x.le x = true :=
  (le_eq_of_finite finite finite).trans (decide_eq_true (Int.le_refl x.key))

theorem le_of_lt (less : x.lt y = true) : x.le y = true := by
  obtain ⟨left, right, less⟩ := lt_iff.mp less
  exact le_iff.mpr ⟨left, right, by omega⟩

theorem le_trans (low : x.le y = true) (high : y.le z = true) : x.le z = true := by
  obtain ⟨left, -, low⟩ := le_iff.mp low
  obtain ⟨-, right, high⟩ := le_iff.mp high
  exact le_iff.mpr ⟨left, right, by omega⟩

theorem lt_of_le_of_lt (low : x.le y = true) (high : y.lt z = true) : x.lt z = true := by
  obtain ⟨left, -, low⟩ := le_iff.mp low
  obtain ⟨-, right, high⟩ := lt_iff.mp high
  exact lt_iff.mpr ⟨left, right, by omega⟩

theorem not_lt_of_le (most : x.le y = true) : y.lt x = false := by
  obtain ⟨-, -, most⟩ := le_iff.mp most
  refine Bool.eq_false_iff.mpr ?_
  intro less
  obtain ⟨-, -, less⟩ := lt_iff.mp less
  omega

theorem le_of_not_lt (left : x.isFinite = true) (right : y.isFinite = true)
    (most : y.lt x = false) : x.le y = true := by
  rw [lt_eq_of_finite right left, decide_eq_false_iff_not] at most
  rw [le_eq_of_finite left right, decide_eq_true_eq]
  omega

/-- Equal in the numeric order, as both zeros are. -/
def Ties (x y : Binary64) : Prop := x.le y = true ∧ y.le x = true

theorem ties_iff : Ties x y ↔ x.isNaN = false ∧ y.isNaN = false ∧ x.key = y.key := by
  simp only [Ties, le_iff]
  constructor
  · rintro ⟨⟨left, right, low⟩, -, -, high⟩
    exact ⟨left, right, by omega⟩
  · rintro ⟨left, right, same⟩
    exact ⟨⟨left, right, by omega⟩, right, left, by omega⟩

theorem Ties.lt_congr (ties : Ties y y') : x.lt y = x.lt y' := by
  obtain ⟨here, there, key⟩ := ties_iff.mp ties
  simp only [lt, here, there, key]

theorem Ties.lt_eq (ties : Ties x x') (ties' : Ties y y') : x.lt y = x'.lt y' := by
  obtain ⟨there, there', key⟩ := ties_iff.mp ties
  obtain ⟨here, here', key'⟩ := ties_iff.mp ties'
  simp only [lt, there, there', here, here', key, key']

/-- The larger of two values that may be missing, the first one on a tie. -/
def larger : Option Binary64 → Option Binary64 → Option Binary64
  | none, y => y
  | some x, none => some x
  | some x, some y => if x.lt y then some y else some x

end Binary64

section
variable {α : Type} {value : α → Option Binary64} {items later : List α} {a best : α}

def FirstLargest (value : α → Option Binary64) (items : List α) (best : α) : Prop :=
  ∃ before after largest, items = before ++ best :: after ∧ value best = some largest ∧
    (∀ a ∈ before, ∀ v, value a = some v → v.lt largest = true) ∧
    ∀ a ∈ after, ∀ v, value a = some v → v.le largest = true

theorem FirstLargest.mem (first : FirstLargest value items best) : best ∈ items := by
  obtain ⟨before, after, -, rfl, -⟩ := first
  exact List.mem_append_right _ List.mem_cons_self

theorem FirstLargest.le (finite : ∀ a v, value a = some v → v.isFinite = true)
    (first : FirstLargest value items best) {largest v : Binary64} (most : value best = some largest)
    (member : a ∈ items) (valued : value a = some v) : v.le largest = true := by
  obtain ⟨before, after, largest', rfl, most', less, atMost⟩ := first
  obtain rfl : largest' = largest := Option.some.inj (most'.symm.trans most)
  rcases List.mem_append.mp member with earlier | later
  · exact Binary64.le_of_lt (less a earlier v valued)
  · rcases List.mem_cons.mp later with rfl | later
    · obtain rfl : largest' = v := Option.some.inj (most.symm.trans valued)
      exact Binary64.le_refl_of_finite (finite a largest' most)
    · exact atMost a later v valued

theorem FirstLargest.filter {keeps : α → Bool} (first : FirstLargest value items best)
    (kept : keeps best = true) : FirstLargest value (items.filter keeps) best := by
  obtain ⟨before, after, largest, rfl, most, less, atMost⟩ := first
  refine ⟨before.filter keeps, after.filter keeps, largest, ?_, most, ?_, ?_⟩
  · rw [List.filter_append, List.filter_cons_of_pos kept]
  · exact fun a member => less a (List.mem_filter.mp member).1
  · exact fun a member => atMost a (List.mem_filter.mp member).1

/-- The first of the largest is so among smaller items before and no larger ones after. -/
theorem FirstLargest.amid (first : FirstLargest value items best) {largest : Binary64}
    (most : value best = some largest) (front later : List α)
    (above : ∀ a ∈ front, ∀ v, value a = some v → v.lt largest = true)
    (below : ∀ a ∈ later, ∀ v, value a = some v → v.le largest = true) :
    FirstLargest value (front ++ items ++ later) best := by
  obtain ⟨before, after, largest', rfl, most', less, atMost⟩ := first
  obtain rfl : largest' = largest := Option.some.inj (most'.symm.trans most)
  refine ⟨front ++ before, after ++ later, largest', by simp, most, ?_, ?_⟩
  · exact fun a member => (List.mem_append.mp member).elim (above a) (less a)
  · exact fun a member => (List.mem_append.mp member).elim (atMost a) (below a)

theorem FirstLargest.unique {other : α} (first : FirstLargest value items best)
    (second : FirstLargest value items other) : best = other := by
  obtain ⟨before, after, largest, split, most, less, atMost⟩ := first
  obtain ⟨before', after', largest', split', most', less', atMost'⟩ := second
  subst split
  -- A later one would be at most the earlier one and above it.
  rcases List.append_eq_append_iff.mp split' with ⟨between, rfl, tail⟩ | ⟨between, rfl, tail⟩
  · cases between with
    | nil => exact (List.cons.inj tail).1
    | cons a between =>
      obtain ⟨rfl, rfl⟩ := List.cons.inj tail
      have low := atMost other (by simp) largest' most'
      have high := less' best (by simp) largest most
      cases (Binary64.not_lt_of_le low).symm.trans high
  · cases between with
    | nil => exact (List.cons.inj tail).1.symm
    | cons a between =>
      obtain ⟨rfl, rfl⟩ := List.cons.inj tail
      have low := atMost' best (by simp) largest most
      have high := less other (by simp) largest' most'
      cases (Binary64.not_lt_of_le low).symm.trans high

/-! ### Picks -/

/-- What is picked from a list: the first of the largest, or nothing where no item has a value. -/
def Picks (value : α → Option Binary64) (items : List α) : Option α → Prop
  | none => ∀ a ∈ items, value a = none
  | some best => FirstLargest value items best

variable {picked picked' : Option α}

theorem Picks.eq_none_iff (picks : Picks value items picked) :
    picked = none ↔ ∀ a ∈ items, value a = none := by
  cases picked with
  | none => exact iff_of_true rfl picks
  | some best =>
    refine iff_of_false (fun impossible => nomatch impossible) ?_
    intro valueless
    have member := FirstLargest.mem picks
    obtain ⟨_, _, _, _, most, _⟩ := picks
    cases (valueless best member).symm.trans most

theorem picks_singleton (value : α → Option Binary64) (a : α) :
    Picks value [a] ((value a).map fun _ => a) := by
  cases valued : value a with
  | none => simpa [Picks] using valued
  | some v => exact ⟨[], [], v, rfl, valued, by simp, by simp⟩

theorem Picks.value_eq_none (picks : Picks value items picked) :
    picked.bind value = none ↔ ∀ a ∈ items, value a = none := by
  rw [← picks.eq_none_iff]
  cases picked with
  | none => simp
  | some best =>
    obtain ⟨_, _, _, _, most, _⟩ := picks
    simp [most]

theorem Picks.unique (first : Picks value items picked) (second : Picks value items picked') :
    picked = picked' := by
  cases picked with
  | none => exact (second.eq_none_iff.mpr first).symm
  | some best =>
    cases picked' with
    | none => exact first.eq_none_iff.mpr second
    | some other => exact congrArg some (FirstLargest.unique first second)

theorem Picks.exists_value (picks : Picks value items picked) {v : Binary64}
    (top : picked.bind value = some v) : ∃ a ∈ items, value a = some v := by
  obtain ⟨best, rfl, most⟩ := Option.bind_eq_some_iff.mp top
  exact ⟨best, FirstLargest.mem picks, most⟩

variable (finite : ∀ a v, value a = some v → v.isFinite = true)
include finite

theorem isFinite_bind {v : Binary64} (top : picked.bind value = some v) : v.isFinite = true := by
  obtain ⟨best, -, valued⟩ := Option.bind_eq_some_iff.mp top
  exact finite best v valued

theorem Picks.le_value (picks : Picks value items picked) {u v : Binary64}
    (top : picked.bind value = some v) (member : a ∈ items) (valued : value a = some u) :
    u.le v = true := by
  obtain ⟨best, rfl, most⟩ := Option.bind_eq_some_iff.mp top
  exact FirstLargest.le finite picks most member valued

theorem Picks.keep (first : Picks value items picked) (second : Picks value later picked')
    (most : ∀ v, picked'.bind value = some v → ∃ u, picked.bind value = some u ∧ v.le u = true) :
    Picks value (items ++ later) picked := by
  cases picked with
  | none =>
    have valueless : picked'.bind value = none := by
      refine Option.eq_none_iff_forall_ne_some.mpr ?_
      intro v valued
      obtain ⟨u, impossible, -⟩ := most v valued
      cases impossible
    intro a member
    rcases List.mem_append.mp member with earlier | new
    · exact first a earlier
    · exact second.value_eq_none.mp valueless a new
  | some best =>
    obtain ⟨_, _, largest, _, valued, _⟩ := id first
    refine FirstLargest.amid first valued [] later (fun _ member => nomatch member) ?_
    intro a new v measured
    cases top : picked'.bind value with
    | none => cases (second.value_eq_none.mp top a new).symm.trans measured
    | some w =>
      obtain ⟨u, same, above⟩ := most w top
      obtain rfl : largest = u := Option.some.inj (valued.symm.trans same)
      exact Binary64.le_trans (second.le_value finite top new measured) above

theorem Picks.take (first : Picks value items picked) {v : Binary64}
    (second : Picks value later picked') (valued : picked'.bind value = some v)
    (more : ∀ u, picked.bind value = some u → u.lt v = true) :
    Picks value (items ++ later) picked' := by
  obtain ⟨best, rfl, largest⟩ := Option.bind_eq_some_iff.mp valued
  rw [← List.append_nil (items ++ later)]
  refine FirstLargest.amid second largest items [] ?_ (fun _ member => nomatch member)
  intro a earlier u measured
  cases top : picked.bind value with
  | none => cases (first.value_eq_none.mp top a earlier).symm.trans measured
  | some w => exact Binary64.lt_of_le_of_lt (first.le_value finite top earlier measured) (more w top)

/-- What is picked from two lists has the larger one of the two values. -/
theorem Picks.append (first : Picks value items picked) (second : Picks value later picked') :
    ∃ both, Picks value (items ++ later) both ∧
      both.bind value = Binary64.larger (picked.bind value) (picked'.bind value) := by
  cases right : picked'.bind value with
  | none =>
    refine ⟨picked, first.keep finite second ?_, ?_⟩
    · intro v impossible
      cases right.symm.trans impossible
    · cases picked.bind value <;> rfl
  | some v =>
    cases left : picked.bind value with
    | none =>
      refine ⟨picked', first.take finite second right ?_, right⟩
      intro u impossible
      cases left.symm.trans impossible
    | some u =>
      cases less : u.lt v with
      | true =>
        refine ⟨picked', first.take finite second right ?_, ?_⟩
        · simpa [left] using less
        · simp [Binary64.larger, less, right]
      | false =>
        refine ⟨picked, first.keep finite second ?_, ?_⟩
        · intro w top
          obtain rfl : v = w := Option.some.inj (right.symm.trans top)
          exact ⟨u, left,
            Binary64.le_of_not_lt (isFinite_bind finite right) (isFinite_bind finite left) less⟩
        · simp [Binary64.larger, less, left]

/-- What is picked from two lists with the same values ties. -/
theorem Picks.ties (first : Picks value items picked) (second : Picks value later picked')
    (same : ∀ v, (∃ a ∈ items, value a = some v) ↔ ∃ a ∈ later, value a = some v) :
    Option.Rel Binary64.Ties (picked.bind value) (picked'.bind value) := by
  cases left : picked.bind value with
  | none =>
    cases right : picked'.bind value with
    | none => exact .none
    | some v =>
      obtain ⟨a, member, measured⟩ := (same v).mpr (second.exists_value right)
      cases (first.value_eq_none.mp left a member).symm.trans measured
  | some u =>
    obtain ⟨a, member, measured⟩ := (same u).mp (first.exists_value left)
    cases right : picked'.bind value with
    | none => cases (second.value_eq_none.mp right a member).symm.trans measured
    | some v =>
      obtain ⟨b, member', measured'⟩ := (same v).mpr (second.exists_value right)
      exact .some ⟨second.le_value finite right member measured,
        first.le_value finite left member' measured'⟩

end
end ServingSweep
