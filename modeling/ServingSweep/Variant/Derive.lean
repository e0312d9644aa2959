import ServingSweep.Plan.Basic
import ServingSweep.Value.Overlay
import ServingSweep.Variant.Basic
import ServingSweep.World

/-!
# Deriving variants

A variant of a model is its base configuration under a name of its own, with
overrides laid on it. A null among the overrides leaves the base as it is.
-/

namespace ServingSweep

namespace Overrides

def effective (o : Overrides) : Overrides := o.filter (fun e => !e.2.isNull)

def event (e : String × Value) : Event :=
  if e.2 = .emptyMapping then .enabling e.1 else .setting e.1 e.2

end Overrides

namespace Variant

/-- The variant of a name: the base under that name, with the overrides laid on it. -/
def build (name : String) (m : Model) (o : Overrides) (base : Config) : Variant :=
  let config := Config.overlayAll (Keyed.insert base "name" (.text name)) o.effective
  let v : Variant := { name := name, config := config }
  (v.tagIf o.isBaseline .baseline).tagIf m.cpuOnly .cpuOnly

def buildEvents (name : String) (o : Overrides) : List Event :=
  .building name :: o.effective.map Overrides.event

/-- The variant of a model for some overrides, named by the registry. -/
def derive (m : Model) (o : Overrides) (base : Config) (w : World) : Variant × World :=
  let (name, names) := w.names.name m.name o
  (build name m o base, { w with names := names }.sayAll (buildEvents name o))

end Variant

end ServingSweep
