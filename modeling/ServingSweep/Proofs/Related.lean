import Mathlib.Data.List.Forall2

/-!
Lists that are related item by item. An item of either list has a partner in the other one, and a
partner for every item makes a related list.
-/

namespace ServingSweep
variable {α β : Type} {R : α → β → Prop} {as : List α} {bs : List β}

theorem exists_of_mem_left (all : List.Forall₂ R as bs) {a : α} (member : a ∈ as) :
    ∃ b ∈ bs, R a b := by
  induction all with
  | nil => cases member
  | cons first _ ih =>
    rcases List.mem_cons.mp member with rfl | later
    · exact ⟨_, List.mem_cons_self, first⟩
    · obtain ⟨b, inside, related⟩ := ih later
      exact ⟨b, List.mem_cons_of_mem _ inside, related⟩

theorem exists_of_mem_right (all : List.Forall₂ R as bs) {b : β} (member : b ∈ bs) :
    ∃ a ∈ as, R a b :=
  exists_of_mem_left all.flip member

theorem exists_forall₂ (each : ∀ a ∈ as, ∃ b, R a b) : ∃ bs, List.Forall₂ R as bs := by
  induction as with
  | nil => exact ⟨[], .nil⟩
  | cons a as ih =>
    obtain ⟨b, first⟩ := each a List.mem_cons_self
    obtain ⟨bs, later⟩ := ih (fun a inside => each a (List.mem_cons_of_mem _ inside))
    exact ⟨b :: bs, .cons first later⟩

theorem exists_getElem?_of_forall₂ {before later : List α} {a : α}
    (all : List.Forall₂ R (before ++ a :: later) bs) :
    ∃ b, bs[before.length]? = some b ∧ R a b := by
  induction before generalizing bs with
  | nil =>
    cases all with
    | cons here => exact ⟨_, rfl, here⟩
  | cons _ before ih =>
    cases all with
    | cons _ all => exact ih all

end ServingSweep
