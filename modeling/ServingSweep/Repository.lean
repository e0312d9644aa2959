import ServingSweep.Fault
import ServingSweep.Value.Basic

/-!
# Model repositories

Where base configurations are kept.
-/

namespace ServingSweep

/-- A repository: what it holds for a model, by the path of the repository and the
name of the model. -/
abbrev Repository := String → String → Except RepositoryFault Config

namespace Repository

/-- A repository of fixed configurations. One that names another model is invalid. -/
def ofConfigs (configs : Keyed Config) : Repository := fun path model =>
  match configs.get? model with
  | none => .error (.notFound path model)
  | some config =>
    match (Keyed.get? config "name").bind Value.asText? with
    | none => .ok config
    | some name =>
      if name = model then .ok config
      else .error (.invalid model s!"config is named {name}")

end Repository

end ServingSweep
