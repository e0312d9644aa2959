/-!
# Faults

Why an operation failed, by cause. `message` gives the wording.
-/

namespace ServingSweep

inductive RepositoryFault where
  | notFound (repository model : String)
  | invalid (model reason : String)
  deriving DecidableEq

namespace RepositoryFault

def message : RepositoryFault → String
  | notFound repository model => s!"Model config not found: {model} in {repository}"
  | invalid model reason => s!"Invalid model config for {model}: {reason}"

end RepositoryFault

inductive ControlFault where
  | loadFailed (model reason : String)
  | unloadFailed (model reason : String)
  | configUnavailable (model : String) (retries : UInt32)
  deriving DecidableEq

namespace ControlFault

def message : ControlFault → String
  | loadFailed model reason => s!"Failed to load model {model}: {reason}"
  | unloadFailed model reason => s!"Failed to unload model {model}: {reason}"
  | configUnavailable model retries =>
    s!"Could not fetch config for {model} after {retries} retries"

end ControlFault

inductive ReadFault where
  | notFound
  | notDirectory
  | isDirectory
  | permissionDenied
  | nameTooLong
  | nulInPath
  | notText
  /-- Another refusal, in the system's words. -/
  | other (reason : String)
  deriving DecidableEq

namespace ReadFault

def message : ReadFault → String
  | notFound => "No such file or directory (os error 2)"
  | notDirectory => "Not a directory (os error 20)"
  | isDirectory => "Is a directory (os error 21)"
  | permissionDenied => "Permission denied (os error 13)"
  | nameTooLong => "File name too long (os error 36)"
  | nulInPath => "file name contained an unexpected NUL byte"
  | notText => "stream did not contain valid UTF-8"
  | other reason => reason

end ReadFault

inductive SetupFault where
  | unreadable (path : String) (cause : ReadFault)
  | noClient
  | noFallback (model repository : String)
  /-- A fault that a source of configurations reports in its own words. -/
  | reported (message : String)
  deriving DecidableEq

namespace SetupFault

def message : SetupFault → String
  | unreadable path cause => s!"cannot read {path}: {cause.message}"
  | noClient => "no server client configured"
  | noFallback model repository =>
    s!"no config for model {model} in {repository} and remote fallback is disabled"
  | reported message => message

end SetupFault

inductive PlanFault where
  | belowOne (range : String)
  | inverted (range : String) (least most : UInt32)
  | noObjective
  | unnamedModel
  | zeroPinned (model : String)
  | emptyAxis (model key : String)
  deriving DecidableEq

namespace PlanFault

def message : PlanFault → String
  | belowOne range => s!"minimum {range} must be at least 1"
  | inverted range least most => s!"minimum {range} {least} exceeds maximum {most}"
  | noObjective => "objective metric must not be empty"
  | unnamedModel => "model name must not be empty"
  | zeroPinned model => s!"model {model}: concurrency and batch sizes must be positive"
  | emptyAxis model key => s!"model {model}: parameter {key} has no values"

end PlanFault

inductive Fault where
  | repository (fault : RepositoryFault)
  | control (fault : ControlFault)
  | setup (fault : SetupFault)
  | plan (fault : PlanFault)
  /-- A text that is not the document it should be. -/
  | malformed
  deriving DecidableEq

namespace Fault

def message : Fault → String
  | repository fault => s!"Loader error: {fault.message}"
  | control fault => s!"Server client error: {fault.message}"
  | setup fault => s!"Configuration error: {fault.message}"
  | plan fault => s!"Validation error: {fault.message}"
  | malformed => "Serialization error: malformed document"

end Fault

end ServingSweep
