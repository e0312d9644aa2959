import ServingSweep.Proofs.Sweep.Play

/-!
Calls in one world. A `Driven` source carries its world and its history from call to call, so that
two runs under the same calls can be compared.
-/

namespace ServingSweep
namespace Source
variable {σ α : Type}

inductive Ask where
  | pull
  | feed (batch : Batch)
  deriving DecidableEq

/-- A source in its world, with what was done to it so far, the last deed first. -/
structure Driven (σ α : Type) where
  source : σ
  world : World
  past : List (Deed α) := []

namespace Driven

def start (begun : σ × World) : Driven σ α := ⟨begun.1, begun.2, []⟩

variable [Source σ α]

def ask (d : Driven σ α) : Ask → Driven σ α
  | .pull =>
    let p := Source.pull d.source d.world
    ⟨p.source, p.world, .pulled p.result :: d.past⟩
  | .feed batch =>
    let (source, w) := Source.feed d.source batch d.world
    ⟨source, w, .fed batch :: d.past⟩

def asks (d : Driven σ α) (calls : List Ask) : Driven σ α := calls.foldl ask d

theorem asks_append (d : Driven σ α) (calls more : List Ask) :
    d.asks (calls ++ more) = (d.asks calls).asks more := List.foldl_append

end Driven
end Source
end ServingSweep
