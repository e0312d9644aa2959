import ServingSweep.Pattern.CharSet
import ServingSweep.Pattern.Modes
import ServingSweep.Text.Alphabetic
import ServingSweep.Text.Numeric

/-!
# Texts of patterns

How a pattern is read from its text, and whether a text is one: it can be read, it does
not nest too deep, and it can be compiled. No text counts repetitions in braces: an
opening brace is refused outside of sets, and a closing one stands for itself.
-/

namespace ServingSweep.Pattern

open Text

/-! ### Heads of groups -/

inductive Head where
  /-- Switches on their own. -/
  | switch (s : Switches)
  | group (s : Switches) (name : Option (List Char))

namespace Head

def isName : List Char → Bool
  | [] => false
  | c :: cs =>
    (c == '_' || isAlphabetic c) &&
      cs.all (fun c => c ∈ ['_', '.', '[', ']'] || isAlphabetic c || isNumeric c)

def named? (cs : List Char) : Option (Head × List Char) :=
  let name := cs.takeWhile (· ≠ '>')
  match cs.drop name.length with
  | [] => none
  | _ :: rest => if isName name then some (.group {} (some name), rest) else none

/-- The switches of their letters. Each may occur once, and those after a dash are off. -/
def switches? (cs : List Char) : Option Switches :=
  if cs.all (· ∈ ['i', 'm', 's', 'R', 'U', 'u', 'x', '-']) ∧ cs.Nodup ∧ cs.getLast? ≠ some '-' then
    some ⟨cs.takeWhile (· ≠ '-'), cs.dropWhile (· ≠ '-')⟩
  else none

def read? : List Char → Option (Head × List Char)
  | '?' :: 'P' :: '<' :: cs | '?' :: '<' :: cs => named? cs
  | '?' :: cs =>
    let letters := cs.takeWhile (fun c => c ≠ ':' ∧ c ≠ ')')
    match cs.drop letters.length, switches? letters with
    | ':' :: rest, some s => some (.group s none, rest)
    | ')' :: rest, some s => if letters.isEmpty then none else some (.switch s, rest)
    | _, _ => none
  | cs => some (.group {} none, cs)

end Head

/-! ### Patterns -/

def isRepeatable : Pattern → Bool
  | .empty | .switch _ => false
  | _ => true

/-- A character or a class that no bracket begins, and the rest. -/
def single? (spaced : Bool) : List Char → Option (Pattern × List Char)
  | [] => none
  | '.' :: cs => some (.any, cs)
  | '^' :: cs | '$' :: cs => some (.place false, cs)
  | '\\' :: cs =>
    match Escape.read? spaced cs with
    | none => none
    | some (.char c, rest) => some (.char c, rest)
    | some (.letter negated, rest) => some (.letter negated, rest)
    | some (.place ofWord, rest) => some (.place ofWord, rest)
  | c :: cs => if c = '\x7b' then none else some (.char ⟨c, false⟩, cs)

/-- Parts in a row, the last first. -/
def ofParts : List Pattern → Pattern
  | [] => .empty
  | [p] => p
  | ps => .sequence ps.reverse

def ofBranches : List Pattern → Pattern
  | [p] => p
  | ps => .choice ps.reverse

/-- What a reader finds: a pattern, whether the text after it is spaced, the names of
the groups so far, and the rest. -/
structure Found where
  pattern : Pattern
  spaced : Bool
  names : List (List Char)
  rest : List Char

def withName? (names : List (List Char)) : Option (List Char) → Option (List (List Char))
  | none => some names
  | some name => if name ∈ names then none else some (name :: names)

mutual

def branches? : Nat → Bool → List (List Char) → List Pattern → List Char → Option Found
  | 0, _, _, _, _ => none
  | fuel + 1, spaced, names, branches, cs =>
    match parts? fuel spaced names [] cs with
    | none => none
    | some found =>
      match found.rest with
      | '|' :: rest => branches? fuel found.spaced found.names (found.pattern :: branches) rest
      | _ => some { found with pattern := ofBranches (found.pattern :: branches) }

def parts? : Nat → Bool → List (List Char) → List Pattern → List Char → Option Found
  | 0, _, _, _, _ => none
  | fuel + 1, spaced, names, parts, cs =>
    match skip spaced cs with
    | [] => some ⟨ofParts parts, spaced, names, []⟩
    | c :: rest =>
      if c = '|' ∨ c = ')' then some ⟨ofParts parts, spaced, names, c :: rest⟩
      else if c = '*' ∨ c = '+' ∨ c = '?' then
        match parts with
        | [] => none
        | p :: parts =>
          if p.isRepeatable then
            let rest := if rest.head? = some '?' then rest.tail else rest
            parts? fuel spaced names (.repeated p :: parts) rest
          else none
      else if c = '(' then
        match Head.read? (skip spaced rest) with
        | none => none
        | some (.switch s, rest) =>
          parts? fuel ((s.get? 'x').getD spaced) names (.switch s :: parts) rest
        | some (.group s name, rest) =>
          match withName? names name with
          | none => none
          | some names =>
            match branches? fuel ((s.get? 'x').getD spaced) names [] rest with
            | none => none
            | some found =>
              match found.rest with
              | ')' :: rest =>
                parts? fuel spaced found.names (.group s found.pattern :: parts) rest
              | _ => none
      else
        match if c = '[' then set? spaced rest else single? spaced (c :: rest) with
        | none => none
        | some (p, rest) => parts? fuel spaced names (p :: parts) rest

end

/-- The pattern of a text. A character takes two steps at most. -/
def ofText? (cs : List Char) : Option Pattern :=
  match branches? (2 * cs.length + 2) false [] [] cs with
  | some ⟨pattern, _, _, []⟩ => some pattern
  | _ => none

def maxDepth : Nat := 250

def isText (cs : List Char) : Bool :=
  (ofText? cs).any (fun p => decide (p.depth ≤ maxDepth) && p.compiles)

end ServingSweep.Pattern
