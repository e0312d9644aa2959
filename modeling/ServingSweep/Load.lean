import ServingSweep.Json.Record

/-!
# Loads

A load is how a client drives one variant.
-/

namespace ServingSweep

/-- How a client drives a variant. -/
structure Load where
  /-- The name of the variant. -/
  variant : String
  batchSize : UInt32
  concurrency : UInt32
  /-- Further options of the client. -/
  flags : Keyed String := []
  deriving DecidableEq

namespace Load

def display (l : Load) : String :=
  let fixed := s!"-m {l.variant} -b {l.batchSize} --concurrency-range {l.concurrency}"
  l.flags.foldl (fun text flag => text ++ s!" --{flag.1}={flag.2}") fixed

def toJson (l : Load) : Json :=
  .object [("batch_size", Json.word l.batchSize), ("concurrency", Json.word l.concurrency),
    ("flags", Json.ofKeyed Json.text l.flags), ("model_name", .text l.variant)]

def readFlags : Json.Reader (Keyed String) := Json.Reader.keyed Json.Reader.text

def read : Json.Reader Load := fun depth d => do
  let r ← Json.Record.of? ["model_name", "batch_size", "concurrency", "flags"] depth d
  some { variant := ← r.required "model_name" Json.Reader.text
         batchSize := ← r.required "batch_size" Json.Reader.word32
         concurrency := ← r.required "concurrency" Json.Reader.word32
         flags := ← r.defaulted "flags" readFlags [] }

end Load

end ServingSweep
