import ServingSweep.Pattern.Basic

/-!
# Modes of patterns

Whether a pattern can be compiled. There are no tables of the properties of Unicode
characters: among Unicode characters neither classes by a letter nor words are known,
and case cannot be folded. Among bytes nothing may match a part of a character.
-/

namespace ServingSweep.Pattern

structure Modes where
  foldsCase : Bool := false
  /-- Of Unicode characters, else of bytes. -/
  unicode : Bool := true
  deriving DecidableEq

def Modes.switched (m : Modes) (s : Switches) : Modes where
  foldsCase := (s.get? 'i').getD m.foldsCase
  unicode := (s.get? 'u').getD m.unicode

/-! ### Sets -/

/-- Whether a character can stand in a set. A set of bytes holds ASCII only. -/
def Literal.fits (c : Literal) (m : Modes) : Bool :=
  if m.unicode then !m.foldsCase else decide (c.char.toNat < 0x80)

/-- Whether a set can be negated. All bytes but some of ASCII are not characters. -/
def Modes.allowsNegated (m : Modes) (negated : Bool) : Bool := m.unicode || !negated

def Modes.allowsLetter (m : Modes) (negated : Bool) : Bool := !m.unicode && !negated

mutual

def CharSet.compiles (m : Modes) : CharSet → Bool
  | .empty => true
  | .one c => c.fits m
  | .range first last => first.fits m && last.fits m
  | .named negated => if m.unicode then !m.foldsCase else !negated
  | .letter negated => m.allowsLetter negated
  | .nested negated inner => inner.compiles m && m.allowsNegated negated
  | .union sets => CharSet.allCompile m sets
  | .combined left right => left.compiles m && right.compiles m

def CharSet.allCompile (m : Modes) : List CharSet → Bool
  | [] => true
  | s :: sets => s.compiles m && CharSet.allCompile m sets

end

/-! ### Patterns -/

/-- Whether a character can stand by itself. A byte beyond ASCII is a part of one. -/
def Literal.compiles (c : Literal) (m : Modes) : Bool :=
  if m.unicode then !m.foldsCase else !c.asByte || decide (c.char.toNat < 0x80)

mutual

/-- The modes that a pattern leaves, if it can be compiled. -/
def modesAfter? (m : Modes) : Pattern → Option Modes
  | .empty => some m
  | .switch s => some (m.switched s)
  | .char c => if c.compiles m then some m else none
  | .any => if m.unicode then some m else none
  | .place ofWord => if ofWord && m.unicode then none else some m
  | .letter negated => if m.allowsLetter negated then some m else none
  | .set negated chars => if chars.compiles m && m.allowsNegated negated then some m else none
  | .repeated p => modesAfter? m p
  | .group s p => (modesAfter? (m.switched s) p).map (fun _ => m)
  | .sequence ps | .choice ps => modesAfterAll? m ps

def modesAfterAll? (m : Modes) : List Pattern → Option Modes
  | [] => some m
  | p :: ps =>
    match modesAfter? m p with
    | none => none
    | some m => modesAfterAll? m ps

end

def compiles (p : Pattern) : Bool := (p.modesAfter? {}).isSome

end ServingSweep.Pattern
