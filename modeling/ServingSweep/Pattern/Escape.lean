import ServingSweep.Pattern.Basic
import ServingSweep.Text.Blank
import ServingSweep.Text.Digit

/-!
# Characters of a pattern

What is passed over in a spaced pattern, and what a backslash makes of the characters
after it.
-/

namespace ServingSweep.Pattern

open Text

/-! ### Blanks -/

/-- The characters after blanks and comments, from inside a comment or not. -/
def afterBlanks (inComment : Bool) : List Char → List Char
  | [] => []
  | c :: cs =>
    if inComment then afterBlanks (c ≠ '\n') cs
    else if c = '#' then afterBlanks true cs
    else if isBlank c then afterBlanks false cs
    else c :: cs

/-- The characters that count next. In a spaced pattern blanks and comments do not. -/
def skip (spaced : Bool) (cs : List Char) : List Char := if spaced then afterBlanks false cs else cs

/-! ### Escapes -/

inductive Escape where
  | char (c : Literal)
  | letter (negated : Bool)
  | place (ofWord : Bool)

namespace Escape

def code? (spaced : Bool) : Nat → Nat → List Char → Option (Nat × List Char)
  | 0, value, cs => some (value, cs)
  | n + 1, value, cs =>
    match skip spaced cs with
    | [] => none
    | c :: cs => (hexDigit? c).bind (fun d => code? spaced n (value * 16 + d) cs)

def coded? (spaced : Bool) (n : Nat) (cs : List Char) : Option (Escape × List Char) :=
  match code? spaced n 0 cs with
  | none => none
  | some (value, rest) =>
    if value.isValidChar then some (.char ⟨Char.ofNat value, n == 2⟩, rest) else none

def letters : List (Char × Escape) :=
  [('d', .letter false), ('s', .letter false), ('w', .letter false), ('D', .letter true),
    ('S', .letter true), ('W', .letter true), ('a', .char ⟨'\x07', false⟩),
    ('f', .char ⟨'\x0c', false⟩), ('t', .char ⟨'\t', false⟩), ('n', .char ⟨'\n', false⟩),
    ('r', .char ⟨'\r', false⟩), ('v', .char ⟨'\x0b', false⟩), ('A', .place false),
    ('z', .place false), ('b', .place true), ('B', .place true), ('<', .place true),
    ('>', .place true)]

/-- What the characters after a backslash stand for, and the rest. Other ASCII characters
than letters and digits stand for themselves. Properties of characters have no meaning. -/
def read? (spaced : Bool) : List Char → Option (Escape × List Char)
  | [] => none
  | 'x' :: cs => coded? spaced 2 cs
  | 'u' :: cs => coded? spaced 4 cs
  | 'U' :: cs => coded? spaced 8 cs
  | c :: cs =>
    match letters.lookup c with
    | some escape => some (escape, cs)
    | none => if c.toNat < 0x80 ∧ !c.isAlphanum then some (.char ⟨c, false⟩, cs) else none

end Escape

end ServingSweep.Pattern
