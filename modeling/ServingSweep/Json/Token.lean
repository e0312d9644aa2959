import ServingSweep.Decimal.Numeral
import ServingSweep.Text.Digit

/-!
# Words of a JSON text

`Token.ofText?` splits a text into its words and fails on anything that is none.
Whether the words form a value is not its concern. A quoted text whose escapes
leave half a surrogate pair is a word, but holds no characters.
-/

namespace ServingSweep.Json

inductive Token where
  | openObject
  | closeObject
  | openArray
  | closeArray
  | colon
  | comma
  | null
  | bool (value : Bool)
  | number (value : Numeral)
  /-- Without characters when half a surrogate pair is escaped. -/
  | text (value : Option String)

namespace Token

def isBlank (c : Char) : Bool := c == ' ' || c == '\t' || c == '\n' || c == '\r'

/-! ### Numbers -/

/-- The digits before the point: a single zero, or digits without a leading one. -/
def whole? : List Char → Option (List Nat × List Char)
  | '0' :: cs => some ([0], cs)
  | cs =>
    match Text.leadingDigits cs with
    | ([], _) => none
    | found => some found

def fraction? : List Char → Option (List Nat × List Char)
  | '.' :: cs =>
    match Text.leadingDigits cs with
    | ([], _) => none
    | found => some found
  | cs => some ([], cs)

def power? (negative : Bool) (cs : List Char) : Option (Option (Bool × List Nat) × List Char) :=
  match Text.leadingDigits cs with
  | ([], _) => none
  | (ds, rest) => some (some (negative, ds), rest)

def exponent? : List Char → Option (Option (Bool × List Nat) × List Char)
  | [] => some (none, [])
  | c :: cs =>
    if c = 'e' ∨ c = 'E' then
      match cs with
      | '+' :: cs => power? false cs
      | '-' :: cs => power? true cs
      | cs => power? false cs
    else some (none, c :: cs)

def numeral? (negative : Bool) (cs : List Char) : Option (Numeral × List Char) := do
  let (whole, cs) ← whole? cs
  let (fraction, cs) ← fraction? cs
  let (exponent, cs) ← exponent? cs
  some (⟨negative, whole, fraction, exponent⟩, cs)

/-! ### Quoted texts -/

def unit? (a b c d : Char) : Option Nat := do
  let a ← Text.hexDigit? a
  let b ← Text.hexDigit? b
  let c ← Text.hexDigit? c
  let d ← Text.hexDigit? d
  some (((a * 16 + b) * 16 + c) * 16 + d)

def isLeading (unit : Nat) : Bool := decide (0xD800 ≤ unit ∧ unit < 0xDC00)

def isTrailing (unit : Nat) : Bool := decide (0xDC00 ≤ unit ∧ unit < 0xE000)

def ofPair (leading trailing : Nat) : Char :=
  Char.ofNat (0x10000 + (leading - 0xD800) * 0x400 + (trailing - 0xDC00))

def escaped? (c : Char) : Option Char :=
  match c with
  | '"' => some '"'
  | '\\' => some '\\'
  | '/' => some '/'
  | 'b' => some '\x08'
  | 'f' => some '\x0c'
  | 'n' => some '\n'
  | 'r' => some '\r'
  | 't' => some '\t'
  | _ => none

/-- A part of a quoted text: a character, or a code unit in hexadecimal. -/
inductive Piece where
  | char (c : Char)
  | unit (n : Nat)

def before (p : Piece) (found : List Piece × List Char) : List Piece × List Char :=
  (p :: found.1, found.2)

def pieces? : List Char → Option (List Piece × List Char)
  | [] => none
  | '"' :: cs => some ([], cs)
  | '\\' :: 'u' :: a :: b :: c :: d :: cs =>
    match unit? a b c d with
    | none => none
    | some n => (pieces? cs).map (before (.unit n))
  | '\\' :: c :: cs =>
    match escaped? c with
    | none => none
    | some c => (pieces? cs).map (before (.char c))
  | c :: cs => if c = '\\' ∨ c.toNat < 0x20 then none else (pieces? cs).map (before (.char c))

/-- The characters of the parts. A code unit of a pair needs the other one beside it. -/
def join? : List Piece → Option (List Char)
  | [] => some []
  | .char c :: ps => (join? ps).map (c :: ·)
  | .unit a :: .unit b :: ps =>
    if isLeading a then
      if isTrailing b then (join? ps).map (ofPair a b :: ·) else none
    else if isTrailing a then none
    else (join? (.unit b :: ps)).map (Char.ofNat a :: ·)
  | .unit a :: ps =>
    if isLeading a || isTrailing a then none else (join? ps).map (Char.ofNat a :: ·)

def quoted? (cs : List Char) : Option (Option String × List Char) :=
  (pieces? cs).map (fun found => ((join? found.1).map String.ofList, found.2))

/-! ### All words -/

def first? : List Char → Option (Token × List Char)
  | '{' :: cs => some (.openObject, cs)
  | '}' :: cs => some (.closeObject, cs)
  | '[' :: cs => some (.openArray, cs)
  | ']' :: cs => some (.closeArray, cs)
  | ':' :: cs => some (.colon, cs)
  | ',' :: cs => some (.comma, cs)
  | 'n' :: 'u' :: 'l' :: 'l' :: cs => some (.null, cs)
  | 't' :: 'r' :: 'u' :: 'e' :: cs => some (.bool true, cs)
  | 'f' :: 'a' :: 'l' :: 's' :: 'e' :: cs => some (.bool false, cs)
  | '"' :: cs => (quoted? cs).map (fun found => (.text found.1, found.2))
  | '-' :: cs => (numeral? true cs).map (fun found => (.number found.1, found.2))
  | cs => (numeral? false cs).map (fun found => (.number found.1, found.2))

/-- The words of a text, after those already found, last first. -/
def scan : Nat → List Token → List Char → Option (List Token)
  | 0, _, _ => none
  | _ + 1, found, [] => some found.reverse
  | fuel + 1, found, c :: cs =>
    if isBlank c then scan fuel found cs
    else
      match first? (c :: cs) with
      | none => none
      | some (token, rest) => scan fuel (token :: found) rest

/-- The words of a text. Each takes a character at least. -/
def ofText? (text : String) : Option (List Token) :=
  let cs := text.toList
  scan (cs.length + 1) [] cs

end Token

end ServingSweep.Json
