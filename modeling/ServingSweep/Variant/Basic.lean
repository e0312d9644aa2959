import ServingSweep.Value.Json

/-!
# Variants

A variant is a named server configuration with marks that say where it is from.
-/

namespace ServingSweep

inductive Tag where
  /-- The base configuration, unchanged. -/
  | baseline
  /-- Reported by a server that is managed elsewhere. -/
  | remote
  /-- The model runs without accelerators. -/
  | cpuOnly
  deriving DecidableEq

namespace Tag

def names : List (String × Tag) :=
  [("default", baseline), ("remote", remote), ("cpu_only", cpuOnly)]

def name : Tag → String
  | baseline => "default"
  | remote => "remote"
  | cpuOnly => "cpu_only"

def read : Json.Reader Tag := Json.Reader.oneOf names

theorem lookup_name (t : Tag) : names.lookup t.name = some t := by cases t <;> decide

end Tag

structure Variant where
  name : String
  config : Config
  tags : List Tag := []
  deriving DecidableEq

namespace Variant

/-- Adds a tag, unless the variant has it. -/
def tag (v : Variant) (t : Tag) : Variant :=
  if t ∈ v.tags then v else { v with tags := v.tags ++ [t] }

def tagIf (v : Variant) (condition : Bool) (t : Tag) : Variant :=
  if condition then v.tag t else v

def has (v : Variant) (t : Tag) : Bool := decide (t ∈ v.tags)

def toJson (v : Variant) : Json :=
  .object [("config", v.config.toJson), ("name", .text v.name),
    ("tags", .array (v.tags.map (fun t => .text t.name)))]

def read : Json.Reader Variant := fun depth d => do
  let r ← Json.Record.of? ["name", "config", "tags"] depth d
  some { name := ← r.required "name" Json.Reader.text
         config := ← r.required "config" Config.read
         tags := ← r.required "tags" (Json.Reader.list Tag.read) }

end Variant

end ServingSweep
