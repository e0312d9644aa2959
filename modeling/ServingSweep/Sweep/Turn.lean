import ServingSweep.Event

/-!
# Turns

Pulls and results take turns. A `Turn` counts where that order is broken; each
break is reported once, and the sweep goes on.
-/

namespace ServingSweep

/-- Whose turn it is between a source and its driver. -/
structure Turn where
  started : Bool := false
  /-- An item was given out and not yet stepped past. -/
  outstanding : Bool := false
  /-- Results came since the last item was given out. -/
  fed : Bool := false
  /-- How often the order was broken. -/
  violations : Nat := 0
  deriving DecidableEq

namespace Turn

def start (t : Turn) : Turn := { t with started := true }

def yielded (t : Turn) : Turn := { t with started := true, outstanding := true, fed := false }

/-- A pull begins while results are due. -/
def unreported (t : Turn) : Bool := t.outstanding && !t.fed

/-- The item given out before, if any, is stepped past. -/
def pulled (t : Turn) : Turn :=
  { t with outstanding := false
           violations := if t.unreported then t.violations + 1 else t.violations }

def pullEvents (t : Turn) (owner : String) : List Event :=
  if t.unreported then [.unreported owner] else []

/-- Results come out of turn. -/
def unexpected (t : Turn) : Bool := !t.outstanding || t.fed

def accepted (t : Turn) : Turn :=
  { t with fed := true
           violations := if t.unexpected then t.violations + 1 else t.violations }

def feedEvents (t : Turn) (owner : String) : List Event :=
  if !t.outstanding then [.stray owner] else if t.fed then [.repeated owner] else []

/-- A broken order is reported once. -/
theorem length_pullEvents (t : Turn) (owner : String) :
    t.violations + (t.pullEvents owner).length = t.pulled.violations := by
  simp only [pullEvents, pulled]
  split <;> simp

theorem length_feedEvents (t : Turn) (owner : String) :
    t.violations + (t.feedEvents owner).length = t.accepted.violations := by
  rcases t with ⟨_, outstanding, fed, _⟩
  cases outstanding <;> cases fed <;> simp [feedEvents, accepted, unexpected]

end Turn

end ServingSweep
