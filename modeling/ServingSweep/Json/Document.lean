import ServingSweep.Json.Token

/-!
# JSON documents

A document is a JSON text as it is written: members in order, keys repeated where
the text repeats them, numbers as digits. What its parts mean, and how deep they
may nest, is decided by whoever reads it: a part that nobody reads need only be
well formed.
-/

namespace ServingSweep.Json

inductive Document where
  | null
  | bool (value : Bool)
  | number (value : Numeral)
  | text (value : Option String)
  | array (items : List Document)
  | object (members : List (Option String × Document))

namespace Document

mutual

def value? : Nat → List Token → Option (Document × List Token)
  | 0, _ => none
  | _ + 1, .null :: rest => some (.null, rest)
  | _ + 1, .bool b :: rest => some (.bool b, rest)
  | _ + 1, .number n :: rest => some (.number n, rest)
  | _ + 1, .text s :: rest => some (.text s, rest)
  | _ + 1, .openArray :: .closeArray :: rest => some (.array [], rest)
  | fuel + 1, .openArray :: rest =>
    match items? fuel rest with
    | some (items, rest) => some (.array items, rest)
    | none => none
  | _ + 1, .openObject :: .closeObject :: rest => some (.object [], rest)
  | fuel + 1, .openObject :: rest =>
    match members? fuel rest with
    | some (members, rest) => some (.object members, rest)
    | none => none
  | _ + 1, _ => none

/-- The items up to the end of an array, one at least. -/
def items? : Nat → List Token → Option (List Document × List Token)
  | 0, _ => none
  | fuel + 1, tokens =>
    match value? fuel tokens with
    | some (item, .comma :: rest) =>
      match items? fuel rest with
      | some (items, rest) => some (item :: items, rest)
      | none => none
    | some (item, .closeArray :: rest) => some ([item], rest)
    | _ => none

def members? : Nat → List Token → Option (List (Option String × Document) × List Token)
  | 0, _ => none
  | fuel + 1, .text key :: .colon :: tokens =>
    match value? fuel tokens with
    | some (value, .comma :: rest) =>
      match members? fuel rest with
      | some (members, rest) => some ((key, value) :: members, rest)
      | none => none
    | some (value, .closeObject :: rest) => some ([(key, value)], rest)
    | _ => none
  | _ + 1, _ => none

end

/-- The document of a text. Every second step takes a word. -/
def ofText? (text : String) : Option Document :=
  match Token.ofText? text with
  | none => none
  | some tokens =>
    match value? (2 * tokens.length + 2) tokens with
    | some (document, []) => some document
    | _ => none

end Document

/-- How a part of a document is read: with the depth to which it may nest. -/
abbrev Reader (α : Type) := Nat → Document → Option α

def maxDepth : Nat := 127

def Reader.ofText? {α : Type} (read : Reader α) (text : String) : Option α :=
  (Document.ofText? text).bind (read maxDepth)

end ServingSweep.Json
