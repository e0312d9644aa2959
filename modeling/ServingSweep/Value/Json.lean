import ServingSweep.Value.Basic
import ServingSweep.Json.Record

/-!
# Configuration values and JSON

`toJson` writes a float that is not finite as null; `ofJson` reads an integer
beyond 63 bits as a float. `read` takes a value from a document directly: scalars
are tried in the order null, boolean, integer, float, text, then a sequence, then
a mapping.
-/

namespace ServingSweep

namespace Scalar

def wide (n : Int64) : WideInt :=
  ⟨n.toInt, Int64.le_toInt n, Int.lt_trans (Int64.toInt_lt n) (by decide)⟩

def toJson : Scalar → Json
  | .null => .null
  | .bool b => .bool b
  | .int n => .number (.integer (wide n))
  | .float x => Json.real x
  | .text s => .text s

/-- The integer, if 63 bits and a sign hold it. -/
def narrow? (n : Int) : Option Int64 :=
  if -0x8000000000000000 ≤ n ∧ n < 0x8000000000000000 then some (Int64.ofInt n) else none

def ofNumber : Json.Number → Scalar
  | .integer n => ((narrow? n.val).map Scalar.int).getD (.float (.ofInt n.val))
  | .real x => .float x.val

/-! ### Readers for one kind of scalar each -/

def readNull : Json.Reader Scalar
  | _, .null => some .null
  | _, _ => none

def readBool : Json.Reader Scalar := fun depth d => (Json.Reader.bool depth d).map .bool

def readInt : Json.Reader Scalar
  | _, .number n => ((Json.Reader.integer? n).bind narrow?).map .int
  | _, _ => none

def readFloat : Json.Reader Scalar := fun depth d => (Json.Reader.real depth d).map .float

def readText : Json.Reader Scalar := fun depth d => (Json.Reader.text depth d).map .text

/-- The first kind of scalar that the document can be read as. -/
def read : Json.Reader Scalar := fun depth d =>
  [readNull, readBool, readInt, readFloat, readText].findSome? (fun r => r depth d)

end Scalar

namespace Value

mutual

def toJson : Value → Json
  | .scalar s => s.toJson
  | .sequence items => .array (toJsonItems items)
  | .mapping entries => .object (toJsonEntries entries)

def toJsonItems : List Value → List Json
  | [] => []
  | item :: items => toJson item :: toJsonItems items

def toJsonEntries : List (String × Value) → List (String × Json)
  | [] => []
  | (key, value) :: entries => (key, toJson value) :: toJsonEntries entries

end

mutual

def ofJson : Json → Value
  | .null => .null
  | .bool b => .bool b
  | .number n => .scalar (Scalar.ofNumber n)
  | .text s => .text s
  | .array items => .sequence (ofJsonItems items)
  | .object members => .mapping (ofJsonMembers members)

def ofJsonItems : List Json → List Value
  | [] => []
  | item :: items => ofJson item :: ofJsonItems items

def ofJsonMembers : List (String × Json) → List (String × Value)
  | [] => []
  | (key, value) :: members => (key, ofJson value) :: ofJsonMembers members

end

def display (v : Value) : String := v.toJson.write

/-- What is inside an array or object, unless it is nested too deep. -/
def inside {α : Type} : Nat → (Nat → Option α) → Option α
  | 0, _ => none
  | depth + 1, read => read depth

mutual

def read : Json.Reader Value
  | depth, .array items =>
    ((Scalar.read depth (.array items)).map .scalar).or
      (inside depth (fun depth => (readItems depth items).map .sequence))
  | depth, .object members =>
    ((Scalar.read depth (.object members)).map .scalar).or
      (inside depth (fun depth =>
        (readMembers depth members).map (fun entries => .mapping (Keyed.ofList entries))))
  | depth, d => (Scalar.read depth d).map .scalar

def readItems : Nat → List Json.Document → Option (List Value)
  | _, [] => some []
  | depth, item :: items =>
    match read depth item, readItems depth items with
    | some item, some items => some (item :: items)
    | _, _ => none

def readMembers : Nat → List (Option String × Json.Document) → Option (List (String × Value))
  | _, [] => some []
  | depth, (key, value) :: members =>
    match key, read depth value, readMembers depth members with
    | some key, some value, some members => some ((key, value) :: members)
    | _, _, _ => none

end

end Value

namespace Config

def toJson (c : Config) : Json := .object (Value.toJsonEntries c)

def read : Json.Reader Config := Json.Reader.keyed Value.read

end Config

end ServingSweep
