import ServingSweep.Simulation.Run

/-!
# The simulated run as a program

Reads the plan of the file that `ST_SEARCH_CONFIG` names, carries it out and prints
the events that `RUST_LOG` asks for.
-/

namespace ServingSweep

def readFaultOf : IO.Error → ReadFault
  | .noFileOrDirectory _ _ _ => .notFound
  | .permissionDenied _ _ _ => .permissionDenied
  | .inappropriateType _ code _ => if code = 20 then .notDirectory else .isDirectory
  | e => .other (toString e)

def readFile (path : String) : IO (Except ReadFault ByteArray) := do
  try
    return .ok (← IO.FS.readBinFile path)
  catch e =>
    return .error (readFaultOf e)

def planOfRun : IO (Except (String × Fault) Plan) := do
  match ← IO.getEnv "ST_SEARCH_CONFIG" with
  | none => return .ok Simulation.defaultPlan
  | some path =>
    match Plan.ofFile path (← readFile path) with
    | .ok p => return .ok p
    | .error fault => return .error (s!"loading search config from {path}", fault)

end ServingSweep

open ServingSweep in
def main : IO UInt32 := do
  match Simulation.Filter.ofSetting? (← IO.getEnv "RUST_LOG") with
  | none =>
    IO.eprintln "Error: the setting of what is shown is torn"
    return 101
  | some filter =>
    match ← planOfRun with
    | .error (context, fault) =>
      IO.eprintln s!"Error: {context}\n\nCaused by:\n    {fault.message}"
      return 1
    | .ok plan =>
      match Simulation.events plan with
      | .error fault =>
        IO.eprintln s!"Error: {fault.message}"
        return 1
      | .ok events =>
        for line in Simulation.lines filter events do
          IO.println line
        return 0
