import ServingSweep.Batch
import ServingSweep.World

/-!
# Sources

A source is a sweep that is pulled item by item and told the results of each item
before the next pull.
-/

namespace ServingSweep

/-- What a pull gives: an item, the end, or a fault; and what it leaves. -/
structure Pulled (σ α : Type) where
  result : Except Fault (Option α)
  source : σ
  world : World

/-- A sweep over items of type `α` whose next item may depend on the results so far. -/
class Source (σ : Type) (α : outParam Type) where
  pull : σ → World → Pulled σ α
  feed : σ → Batch → World → σ × World
  started : σ → Bool
  done : σ → Bool

class FiniteSource (σ : Type) (α : outParam Type) extends Source σ α where
  /-- No more items than this will come. -/
  ahead : σ → Nat
  ahead_pull_le : ∀ s w, ahead (pull s w).source ≤ ahead s
  ahead_pull_lt : ∀ s w a, (pull s w).result = .ok (some a) → ahead (pull s w).source < ahead s
  ahead_feed_le : ∀ s batch w, ahead (feed s batch w).1 ≤ ahead s

inductive Phase where
  | notStarted
  | running
  | done
  deriving DecidableEq

namespace Phase

def rank : Phase → Nat
  | notStarted => 0
  | running => 1
  | done => 2

end Phase

def Source.phase {σ α : Type} [Source σ α] (s : σ) : Phase :=
  if !started s then .notStarted else if done s then .done else .running

end ServingSweep
