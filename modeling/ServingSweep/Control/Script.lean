import ServingSweep.Control.Client

/-!
# Scripted servers

A server whose answers are given beforehand.
-/

namespace ServingSweep

/-- A server that follows a script. The `n`-th call of a kind is refused where the
list of that kind holds `true` at `n`. -/
structure Script where
  /-- The configurations of single models. -/
  configs : Keyed Config := []
  /-- The configuration of every other model. -/
  config : Config := []
  refuseLoad : List Bool := []
  refuseUnload : List Bool := []
  refuseConfig : List Bool := []

namespace Script

def refuses (refusals : List Bool) (kind : Call → Bool) (calls : List Call) : Bool :=
  refusals.getD (calls.countP kind) false

def isLoad : Call → Bool
  | .load _ => true
  | _ => false

def isUnload : Call → Bool
  | .unload _ => true
  | _ => false

def isConfig : Call → Bool
  | .config _ _ => true
  | _ => false

def client (s : Script) : Client where
  load calls model :=
    if refuses s.refuseLoad isLoad calls then .error (.loadFailed model "load refused") else .ok ()
  unload calls model :=
    if refuses s.refuseUnload isUnload calls then .error (.unloadFailed model "unload refused")
    else .ok ()
  config calls model retries :=
    if refuses s.refuseConfig isConfig calls then .error (.configUnavailable model retries)
    else .ok ((s.configs.get? model).getD s.config)

end Script

end ServingSweep
