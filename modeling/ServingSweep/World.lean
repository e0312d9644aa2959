import ServingSweep.Event
import ServingSweep.Journal
import ServingSweep.Names

/-!
# What searches share

The registry of names, the calls made to the server so far and the events so far.
Every operation of a search that touches one of them takes a `World` and gives the
next one.
-/

namespace ServingSweep

inductive Call where
  | load (model : String)
  | unload (model : String)
  | config (model : String) (retries : UInt32)
  deriving DecidableEq

structure World where
  names : Names := {}
  /-- In the order in which they were made. -/
  calls : List Call := []
  said : Journal Event := {}

namespace World

def log (w : World) : List Event := w.said.toList

def say (w : World) (e : Event) : World := { w with said := w.said.push e }

def sayAll (w : World) (es : List Event) : World := { w with said := w.said.append es }

def called (w : World) (c : Call) : World := { w with calls := w.calls ++ [c] }

/-! ### Fields that an update leaves alone -/

@[simp] theorem say_names (w : World) (e : Event) : (w.say e).names = w.names := rfl

@[simp] theorem say_calls (w : World) (e : Event) : (w.say e).calls = w.calls := rfl

@[simp] theorem say_log (w : World) (e : Event) : (w.say e).log = w.log ++ [e] :=
  w.said.toList_push e

@[simp] theorem sayAll_names (w : World) (es : List Event) : (w.sayAll es).names = w.names := rfl

@[simp] theorem sayAll_calls (w : World) (es : List Event) : (w.sayAll es).calls = w.calls := rfl

@[simp] theorem sayAll_log (w : World) (es : List Event) : (w.sayAll es).log = w.log ++ es :=
  w.said.toList_append es

@[simp] theorem called_names (w : World) (c : Call) : (w.called c).names = w.names := rfl

@[simp] theorem called_calls (w : World) (c : Call) : (w.called c).calls = w.calls ++ [c] := rfl

@[simp] theorem called_log (w : World) (c : Call) : (w.called c).log = w.log := rfl

end World

end ServingSweep
