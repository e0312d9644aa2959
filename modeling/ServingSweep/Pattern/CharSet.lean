import ServingSweep.Pattern.Escape

/-!
# Sets of characters

How the text of a set between brackets is read: characters, ranges, classes by name
or by a letter, sets within, and operations on the set so far.
-/

namespace ServingSweep.Pattern

open Text

namespace CharSet

/-! ### Classes by name -/

def names : List String :=
  ["alnum", "alpha", "ascii", "blank", "cntrl", "digit", "graph", "lower", "print", "punct",
    "space", "upper", "word", "xdigit"]

/-- The class whose name in colons follows an opening bracket, and the rest. -/
def named? : List Char → Option (CharSet × List Char)
  | ':' :: cs =>
    let negated := cs.head? == some '^'
    let cs := if negated then cs.tail else cs
    match cs.dropWhile (· ≠ ':') with
    | ':' :: ']' :: rest =>
      if String.ofList (cs.takeWhile (· ≠ ':')) ∈ names then some (.named negated, rest) else none
    | _ => none
  | _ => none

/-! ### Beginnings -/

/-- Dashes that a set begins with stand for themselves. -/
def dashes (spaced : Bool) : Nat → List CharSet → List Char → List CharSet × List Char
  | 0, found, cs => (found, cs)
  | fuel + 1, found, cs =>
    match cs with
    | '-' :: rest => dashes spaced fuel (.one ⟨'-', false⟩ :: found) (skip spaced rest)
    | cs => (found, cs)

/-- Whether a set is negated, the characters that it begins with, and the rest. A bracket
that comes first stands for itself. -/
def start (spaced : Bool) (cs : List Char) : Bool × List CharSet × List Char :=
  let cs := skip spaced cs
  let negated := cs.head? == some '^'
  let cs := if negated then skip spaced cs.tail else cs
  match cs with
  | ']' :: rest => (negated, [.one ⟨']', false⟩], skip spaced rest)
  | cs => (negated, dashes spaced cs.length [] cs)

/-! ### Items -/

def item? (spaced : Bool) : List Char → Option (CharSet × List Char)
  | [] => none
  | '\\' :: cs =>
    match Escape.read? spaced cs with
    | some (.char c, rest) => some (.one c, rest)
    | some (.letter negated, rest) => some (.letter negated, rest)
    | _ => none
  | c :: cs => some (.one ⟨c, false⟩, cs)

/-- The character that decides whether a dash makes a range. In a spaced pattern blanks
before it do not count, nor a mark of a comment. -/
def ahead? (spaced : Bool) (cs : List Char) : Option Char :=
  if spaced then
    let visible := cs.dropWhile isBlank
    let visible := if visible.head? = some '#' then visible.tail.dropWhile isBlank else visible
    visible.head?.or cs.head?
  else cs.head?

def range? (spaced : Bool) (cs : List Char) : Option (CharSet × List Char) :=
  match item? spaced cs with
  | none => none
  | some (first, rest) =>
    match skip spaced rest with
    | [] => none
    | '-' :: rest =>
      let next := ahead? spaced rest
      if next = some ']' ∨ next = some '-' then some (first, '-' :: rest)
      else
        match first, item? spaced (skip spaced rest) with
        | .one c, some (.one d, rest) => if c.char ≤ d.char then some (.range c d, rest) else none
        | _, _ => none
    | rest => some (first, rest)

/-! ### Sets -/

/-- The set of the items since the last operation, the last first, and of what was
before the operation. -/
def joined (before : Option CharSet) (items : List CharSet) : CharSet :=
  let latest :=
    match items with
    | [] => .empty
    | [item] => item
    | items => .union items.reverse
  match before with
  | none => latest
  | some left => .combined left latest

def read? (spaced : Bool) :
    Nat → Option CharSet → List CharSet → List Char → Option (CharSet × List Char)
  | 0, _, _, _ => none
  | fuel + 1, before, items, cs =>
    match skip spaced cs with
    | [] => none
    | ']' :: rest => some (joined before items, rest)
    | '[' :: rest =>
      match named? rest with
      | some (item, rest) => read? spaced fuel before (item :: items) rest
      | none =>
        let (negated, found, rest) := start spaced rest
        match read? spaced fuel none found rest with
        | none => none
        | some (inner, rest) => read? spaced fuel before (.nested negated inner :: items) rest
    | c :: rest =>
      if (c = '&' ∨ c = '-' ∨ c = '~') ∧ rest.head? = some c then
        read? spaced fuel (some (joined before items)) [] rest.tail
      else
        match range? spaced (c :: rest) with
        | none => none
        | some (item, rest) => read? spaced fuel before (item :: items) rest

end CharSet

/-- The pattern of a set after its opening bracket, and the rest. Every step takes a
character. -/
def set? (spaced : Bool) (cs : List Char) : Option (Pattern × List Char) :=
  let (negated, found, rest) := CharSet.start spaced cs
  (CharSet.read? spaced (rest.length + 1) none found rest).map
    (fun (chars, rest) => (.set negated chars, rest))

end ServingSweep.Pattern
