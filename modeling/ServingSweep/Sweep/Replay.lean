import ServingSweep.Journal
import ServingSweep.Sweep.Source
import ServingSweep.Variant.Basic

/-!
# Replayed variants

A source that gives out prepared variants and faults, one at each pull, and keeps
the results it was fed.
-/

namespace ServingSweep

structure Replay where
  /-- What is still to come, a fault by its message. -/
  coming : List (Except String Variant)
  begun : Bool := false
  /-- The results fed so far. -/
  received : Journal Batch := {}

namespace Replay

def pull (r : Replay) (w : World) : Pulled Replay Variant :=
  let next := { r with begun := true, coming := r.coming.tail }
  match r.coming with
  | [] => ⟨.ok none, next, w⟩
  | .ok variant :: _ => ⟨.ok (some variant), next, w⟩
  | .error message :: _ => ⟨.error (.setup (.reported message)), next, w⟩

theorem coming_pull (r : Replay) (w : World) : (r.pull w).source.coming = r.coming.tail := by
  unfold pull
  dsimp only
  split <;> rfl

theorem received_pull (r : Replay) (w : World) : (r.pull w).source.received = r.received := by
  unfold pull
  dsimp only
  split <;> rfl

theorem coming_of_ended {r : Replay} {w : World} (ended : (r.pull w).result = .ok none) :
    r.coming = [] := by
  unfold pull at ended
  dsimp only at ended
  split at ended
  · next empty => exact empty
  · cases ended
  · cases ended

theorem coming_of_given {r : Replay} {w : World} {v : Variant}
    (given : (r.pull w).result = .ok (some v)) : r.coming = .ok v :: r.coming.tail := by
  unfold pull at given
  dsimp only at given
  split at given
  · cases given
  · next first => cases given; rw [first, List.tail_cons]
  · cases given

instance : FiniteSource Replay Variant where
  pull := pull
  feed r batch w := ({ r with received := r.received.push batch }, w)
  started r := r.begun
  done r := r.begun && r.coming.isEmpty
  ahead r := r.coming.length
  ahead_pull_le r w := by
    rw [coming_pull, List.length_tail]
    exact Nat.sub_le _ _
  ahead_pull_lt r w v given := by
    rw [coming_pull, coming_of_given given, List.tail_cons]
    exact Nat.lt_succ_self _
  ahead_feed_le r batch w := Nat.le_refl _

end Replay

end ServingSweep
