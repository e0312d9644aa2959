import ServingSweep.Simulation.Directive

/-!
# Settings of what is shown

A setting is a list of parts between commas. The most specific part that concerns an
event decides whether it is shown, the later one of two that are alike. A setting with
a part that cannot be read is passed over; one with a torn piece shows nothing, and no
run begins.
-/

namespace ServingSweep.Simulation

abbrev Filter := List Directive

namespace Filter

def standard : Filter := [{ rank := Level.info.rank }]

/-- What the parts of a setting mean. The first that has no meaning decides why the
setting has none. -/
def read (setting : String) : Except Misfit Filter :=
  ((setting.splitOn ",").filter (fun part => !part.isEmpty)).mapM
    (fun part => Directive.ofPart ⟨part.toList⟩)

/-- The filter of a setting, if there is one and it can be read; none if a piece is torn. -/
def ofSetting? : Option String → Option Filter
  | none => some standard
  | some setting =>
    match read setting with
    | .ok f => some f
    | .error .unreadable => some standard
    | .error .torn => none

def deciding? (f : Filter) (e : Event) : Option Directive :=
  (f.filter (·.concerns e)).foldl Directive.choose none

def shows (f : Filter) (e : Event) : Bool :=
  (f.deciding? e).any (fun d => decide (e.level.rank ≤ d.rank))

end Filter

end ServingSweep.Simulation
