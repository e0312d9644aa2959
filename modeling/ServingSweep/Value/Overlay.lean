import ServingSweep.Value.Basic

/-!
# Overlaying a value on a configuration

A mapping laid on a mapping overwrites only the keys it has, at every depth.
Anything else replaces what was there.
-/

namespace ServingSweep

namespace Config

mutual

/-- Lays a value on the configuration at `key`. -/
def overlay (target : Config) (key : String) : Value → Config
  | .mapping incoming =>
    match target.get? key with
    | some (.mapping existing) => target.insert key (.mapping (overlayAll existing incoming))
    | _ => target.insert key (.mapping incoming)
  | .scalar value => target.insert key (.scalar value)
  | .sequence items => target.insert key (.sequence items)

def overlayAll (target : Config) : List (String × Value) → Config
  | [] => target
  | (key, value) :: entries => overlayAll (overlay target key value) entries

end

end Config

end ServingSweep
