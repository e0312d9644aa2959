import ServingSweep.Value.Basic

/-!
# Overrides

A set of values to lay on a base configuration. The empty set asks for the base
configuration itself.
-/

namespace ServingSweep

/-- The values laid on a base configuration, by key. -/
abbrev Overrides := Config

namespace Overrides

def isBaseline (o : Overrides) : Bool := o.isEmpty

/-- The key of the server batch size, which the sweeps step fastest. -/
def batchSizeKey : String := "max_batch_size"

/-- What a row of a sweep has in common. -/
def rowKey (o : Overrides) : Overrides := Keyed.erase o batchSizeKey

end Overrides

end ServingSweep
