import ServingSweep.Json.Document
import ServingSweep.Keyed
import ServingSweep.Decimal.Layout

/-!
# JSON values

`Json` is a value without regard to how it is written. Integers are those of 64
bits, signed or not; every other number is a finite binary64 number. The members
of an object are in key order, and of two with one key the later stays.
-/

namespace ServingSweep

structure WideInt where
  val : Int
  lower : -0x8000000000000000 ≤ val
  upper : val < 0x10000000000000000
  deriving DecidableEq

namespace Json

inductive Number where
  | integer (n : WideInt)
  | real (x : Finite)
  deriving DecidableEq

namespace Number

def ofInt? (n : Int) : Option Number :=
  if h : -0x8000000000000000 ≤ n ∧ n < 0x10000000000000000 then some (.integer ⟨n, h.1, h.2⟩)
  else none

def ofReal? (x : Binary64) : Option Number :=
  if h : x.isFinite = true then some (.real ⟨x, h⟩) else none

/-- An integer numeral beyond 64 bits is read as a real one, and so is `-0`. -/
def ofNumeral? (n : Numeral) : Option Number :=
  match n.integer?.bind ofInt? with
  | some number => some number
  | none => n.real?.bind ofReal?

def toReal : Number → Binary64
  | .integer n => .ofInt n.val
  | .real x => x.val

def write : Number → String
  | .integer n => toString n.val
  | .real x => Layout.json.write x.val

end Number

end Json

inductive Json where
  | null
  | bool (value : Bool)
  | number (value : Json.Number)
  | text (value : String)
  | array (items : List Json)
  | object (members : List (String × Json))

namespace Json

instance : Inhabited Json := ⟨.null⟩

def word (n : UInt32) : Json :=
  .number (.integer ⟨n.toNat, by omega, by have := n.toNat_lt; omega⟩)

/-- The JSON number of a count; none beyond 64 bits has one. -/
def count (n : Nat) : Json := ((Number.ofInt? n).map Json.number).getD .null

/-- The JSON number of a float, null when it is not finite. -/
def real (x : Binary64) : Json := ((Number.ofReal? x).map Json.number).getD .null

def ofOption {α : Type} (toJson : α → Json) (a : Option α) : Json := a.elim .null toJson

def ofKeyed {α : Type} (toJson : α → Json) (m : Keyed α) : Json :=
  .object (m.map (fun e => (e.1, toJson e.2)))

/-! ### From documents -/

mutual

def ofDocument? : Reader Json
  | _, .null => some .null
  | _, .bool b => some (.bool b)
  | _, .number n => (Number.ofNumeral? n).map .number
  | _, .text s => s.map .text
  | 0, .array _ => none
  | depth + 1, .array items => (ofItems? depth items).map .array
  | 0, .object _ => none
  | depth + 1, .object members =>
    (ofMembers? depth members).map (fun members => .object (Keyed.ofList members))

def ofItems? : Nat → List Document → Option (List Json)
  | _, [] => some []
  | depth, item :: items =>
    match ofDocument? depth item, ofItems? depth items with
    | some item, some items => some (item :: items)
    | _, _ => none

def ofMembers? : Nat → List (Option String × Document) → Option (List (String × Json))
  | _, [] => some []
  | depth, (key, value) :: members =>
    match key, ofDocument? depth value, ofMembers? depth members with
    | some key, some value, some members => some ((key, value) :: members)
    | _, _, _ => none

end

/-! ### Text -/

/-- A character inside quotes. Controls have short forms where JSON names one. -/
def writeChar (c : Char) : List Char :=
  if c = '"' then ['\\', '"']
  else if c = '\\' then ['\\', '\\']
  else if c = '\x08' then ['\\', 'b']
  else if c = '\t' then ['\\', 't']
  else if c = '\n' then ['\\', 'n']
  else if c = '\x0c' then ['\\', 'f']
  else if c = '\r' then ['\\', 'r']
  else if c.toNat < 0x20 then '\\' :: 'u' :: Text.hexDigits 4 c.toNat
  else [c]

def quoted (s : String) : List Char := '"' :: s.toList.flatMap writeChar ++ ['"']

mutual

def chars : Json → List Char
  | .null => ['n', 'u', 'l', 'l']
  | .bool true => ['t', 'r', 'u', 'e']
  | .bool false => ['f', 'a', 'l', 's', 'e']
  | .number n => n.write.toList
  | .text s => quoted s
  | .array [] => ['[', ']']
  | .array (item :: items) => '[' :: chars item ++ itemChars items
  | .object [] => ['{', '}']
  | .object ((key, value) :: members) =>
    '{' :: quoted key ++ ':' :: chars value ++ memberChars members

def itemChars : List Json → List Char
  | [] => [']']
  | item :: items => ',' :: chars item ++ itemChars items

def memberChars : List (String × Json) → List Char
  | [] => ['}']
  | (key, value) :: members => ',' :: quoted key ++ ':' :: chars value ++ memberChars members

end

/-- The text of a value, without blanks. -/
def write (j : Json) : String := String.ofList j.chars

end Json

end ServingSweep
