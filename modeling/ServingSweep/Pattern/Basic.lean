/-!
# Patterns

A pattern as a tree. `depth` says how deep its parts nest.
-/

namespace ServingSweep

namespace Pattern

structure Literal where
  char : Char
  /-- Written as a code of two digits, which can also mean a byte. -/
  asByte : Bool := false
  deriving DecidableEq

inductive CharSet where
  | empty
  | one (c : Literal)
  | range (first last : Literal)
  /-- A class by name, or all but that class. -/
  | named (negated : Bool)
  /-- A class by a letter after a backslash, or all but that class. -/
  | letter (negated : Bool)
  | nested (negated : Bool) (inner : CharSet)
  | union (sets : List CharSet)
  /-- An operation on two sets. -/
  | combined (left right : CharSet)

/-- Switches of how a pattern is read, by their letters. -/
structure Switches where
  on : List Char := []
  off : List Char := []
  deriving DecidableEq

def Switches.get? (s : Switches) (c : Char) : Option Bool :=
  if c ∈ s.on then some true else if c ∈ s.off then some false else none

end Pattern

inductive Pattern where
  | empty
  /-- Switches for the rest of the group. -/
  | switch (s : Pattern.Switches)
  | char (c : Pattern.Literal)
  | any
  /-- A place in the text, perhaps one where a word begins or ends. -/
  | place (ofWord : Bool)
  /-- A class by a letter after a backslash, or all but that class. -/
  | letter (negated : Bool)
  | set (negated : Bool) (chars : Pattern.CharSet)
  | repeated (p : Pattern)
  | group (s : Pattern.Switches) (p : Pattern)
  | sequence (ps : List Pattern)
  | choice (ps : List Pattern)

namespace Pattern

/-! ### Depth -/

mutual

def CharSet.depth : CharSet → Nat
  | .empty | .one _ | .range _ _ | .named _ | .letter _ => 0
  | .nested _ inner => inner.depth + 1
  | .union sets => CharSet.depthOfAll sets + 1
  | .combined left right => max left.depth right.depth + 1

def CharSet.depthOfAll : List CharSet → Nat
  | [] => 0
  | s :: sets => max s.depth (CharSet.depthOfAll sets)

end

mutual

def depth : Pattern → Nat
  | .empty | .switch _ | .char _ | .any | .place _ | .letter _ => 0
  | .set _ chars => chars.depth + 1
  | .repeated p | .group _ p => p.depth + 1
  | .sequence ps | .choice ps => depthOfAll ps + 1

def depthOfAll : List Pattern → Nat
  | [] => 0
  | p :: ps => max p.depth (depthOfAll ps)

end

end Pattern

end ServingSweep
