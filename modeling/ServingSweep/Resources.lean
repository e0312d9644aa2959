import ServingSweep.Control.Client
import ServingSweep.Plan.Basic
import ServingSweep.Repository

/-!
# What searches draw on

A search looks for the base configuration of a model in a repository, and asks a
model server for the one it derives when the repository has none.
-/

namespace ServingSweep

structure Resources where
  plan : Plan
  repository : Repository
  client : Option Client := none

namespace Resources

def askServer (r : Resources) (model : String) (reload : Bool) (w : World) :
    Except Fault Config × World :=
  match r.client with
  | none => (.error (.setup .noClient), w)
  | some client =>
    let (answer, w) := client.fetch model r.plan.retries reload w
    (answer.mapError .control, w)

/-- The base configuration of a model: from the repository, or else from the
server where the plan allows that. -/
def base (r : Resources) (model : String) (w : World) : Except Fault Config × World :=
  match r.repository r.plan.repository model with
  | .ok config => (.ok config, w)
  | .error (.notFound _ _) =>
    if r.plan.remoteFallback then
      r.askServer model true (w.say (.askingServer model r.plan.repository))
    else (.error (.setup (.noFallback model r.plan.repository)), w)
  | .error fault => (.error (.repository fault), w)

end Resources

end ServingSweep
