import ServingSweep.Event
import ServingSweep.Pattern.Reader
import ServingSweep.Text.Bytes

/-!
# Directives

A part of a setting of what is shown: a grade for all events, or for those of a target,
within a span or with a field. The pieces of a part are found in its text without outer
blanks, but cut from the whole text at the places they have there: behind blanks they
begin and end too early, and one that begins or ends within a character is torn.
-/

namespace ServingSweep.Simulation

open Text

/-! ### Grades -/

def ranks : List (String × Nat) :=
  [("off", 0), ("error", Level.error.rank), ("warn", Level.warn.rank), ("info", Level.info.rank),
    ("debug", Level.debug.rank), ("trace", Level.trace.rank)]

/-- The rank of a grade, by name in any case or by number. -/
def rank? (word : List Char) : Option Nat :=
  let (ds, rest) := leadingDigits (if word.head? = some '+' then word.tail else word)
  if ds.isEmpty || !rest.isEmpty then ranks.lookup (String.ofList (word.map Char.toLower))
  else if number ds ≤ Level.trace.rank then some (number ds)
  else none

/-! ### Parts -/

inductive Misfit where
  | unreadable
  /-- A piece would begin or end within a character. -/
  | torn
  deriving DecidableEq

structure Part where
  whole : List Char
  deriving DecidableEq

namespace Part

def text (p : Part) : List Char := trim p.whole

/-- Where what is left of the text begins. -/
def place (p : Part) (rest : List Char) : Nat := byteCount p.text - byteCount rest

/-- The piece between two places, each given by what is left of the text. -/
def piece (p : Part) (start stop : List Char) : Except Misfit (List Char) :=
  match piece? (p.place start) (p.place stop) p.whole with
  | none => .error .torn
  | some piece => .ok piece

def pieceFrom (p : Part) (start : List Char) : Except Misfit (List Char) :=
  match splitAt? (p.place start) p.whole with
  | none => .error .torn
  | some (_, piece) => .ok piece

end Part

/-! ### Values of fields -/

/-- A number after its sign: digits, a point among them or not, and an exponent or none;
or a name of what is not finite. -/
def isNumber (cs : List Char) : Bool :=
  let (whole, rest) := leadingDigits cs
  let (fraction, rest) :=
    match rest with
    | '.' :: rest => leadingDigits rest
    | rest => ([], rest)
  let exponent :=
    match rest with
    | [] => true
    | e :: rest =>
      let (ds, rest) := leadingDigits (if rest.head?.any (· ∈ ['+', '-']) then rest.tail else rest)
      e.toLower == 'e' && !ds.isEmpty && rest.isEmpty
  String.ofList (cs.map Char.toLower) ∈ ["inf", "infinity", "nan"] ||
    !(whole.isEmpty && fraction.isEmpty) && exponent

/-- Whether a field can be asked for a value: a pattern, or a number with a sign. -/
def isValue (cs : List Char) : Bool :=
  Pattern.isText cs || cs.head? == some '+' && isNumber cs.tail

/-! ### Directives -/

/-- Up to which rank the events that a part concerns are shown. -/
structure Directive where
  /-- How the target of an event begins. -/
  target : List Char := []
  /-- Events within a span only. -/
  withinSpan : Bool := false
  /-- Events with a field of this name only. -/
  field : Option (List Char) := none
  rank : Nat := Level.trace.rank
  deriving DecidableEq

namespace Directive

/-- A word alone is a grade, or else a target. -/
def ofWord (word : List Char) : Directive :=
  match rank? word with
  | none => { target := word }
  | some rank => { rank := rank }

/-- The directive for events with a field, which may be asked for a value. Values belong
to the fields of spans. -/
def withField (d : Directive) (field : List Char) : Except Misfit Directive :=
  let name := field.takeWhile (· ≠ '=')
  match field.drop name.length with
  | [] => .ok { d with field := some name }
  | _ :: value =>
    if isValue (value.takeWhile (· ≠ '=')) then .ok { d with withinSpan := true }
    else .error .unreadable

/-- The directive with the grade that may be left of the text. An empty grade shows
everything. -/
def graded (d : Directive) (p : Part) : List Char → Except Misfit Directive
  | [] => .ok d
  | '=' :: rest => do
    let grade ← p.pieceFrom rest
    if grade.isEmpty then .ok d
    else
      match rank? grade with
      | none => .error .unreadable
      | some rank => .ok { d with rank := rank }
  | _ => .error .unreadable

/-- The directive with what is left of the text after an opening bracket: the name of a
span, which may be empty before a field in braces. -/
def bracketed (d : Directive) (p : Part) (cs : List Char) : Except Misfit Directive :=
  match cs.dropWhile (fun c => c ≠ ']' ∧ c ≠ '\x7b') with
  | [] => .error .unreadable
  | c :: rest => do
    let span ← p.piece cs (c :: rest)
    if c = ']' then graded { d with withinSpan := true } p rest
    else
      match rest.dropWhile (· ≠ '\x7d') with
      | [] => .error .unreadable
      | brace :: after => do
        let field ← p.piece rest (brace :: after)
        if field.isEmpty then .error .unreadable
        else
          let d ← withField { d with withinSpan := !span.isEmpty } field
          match after with
          | ']' :: rest => d.graded p rest
          | _ => .error .unreadable

def opens (c : Char) : Bool := c ∈ ['[', '-', ':', '_'] || isAlphabetic c || isNumeric c

def ofPart (p : Part) : Except Misfit Directive :=
  if p.text.head?.any opens then
    match p.text.dropWhile (fun c => c ≠ '=' ∧ c ≠ '[') with
    | [] => .ok (ofWord p.whole)
    | c :: rest => do
      let target ← p.piece p.text (c :: rest)
      if c = '=' then graded { target := target } p (c :: rest)
      else bracketed { target := target } p rest
  else .error .unreadable

/-! ### Events -/

/-- Whether a part concerns an event. Events have one field, their message, and happen
within no span. -/
def concerns (d : Directive) (e : Event) : Bool :=
  !d.withinSpan && d.target.isPrefixOf e.target.toList && d.field.all (· == "message".toList)

/-- How specific a part is: by the length of its target, then by whether it names a field. -/
def weight (d : Directive) : Nat := 2 * d.target.length + d.field.toList.length

/-- The more specific of two parts, the second if they are alike. -/
def choose (known : Option Directive) (d : Directive) : Option Directive :=
  match known with
  | none => some d
  | some k => if k.weight ≤ d.weight then some d else some k

end Directive

end ServingSweep.Simulation
