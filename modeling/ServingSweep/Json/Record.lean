import ServingSweep.Json.Tree

/-!
# Reading typed values from documents

Readers for words, texts, lists, maps and enumerations, and for records. A record
is an object, or an array of its fields in declared order. Unknown members are
passed over; a field that occurs twice is refused, and so is an array with more
items than the record has fields.
-/

namespace ServingSweep.Json

namespace Reader

def bool : Reader Bool
  | _, .bool b => some b
  | _, _ => none

def text : Reader String
  | _, .text s => s
  | _, _ => none

def integer? (n : Numeral) : Option Int :=
  match Number.ofNumeral? n with
  | some (.integer n) => some n.val
  | _ => none

def natural (limit : Nat) : Reader Nat
  | _, .number n =>
    match integer? n with
    | some value => if 0 ≤ value ∧ value < limit then some value.toNat else none
    | none => none
  | _, _ => none

def word32 : Reader UInt32 := fun depth d => (natural (0x100000000) depth d).map UInt32.ofNat

def word64 : Reader Nat := natural (0x10000000000000000)

/-- Any number, integers included. -/
def real : Reader Binary64
  | _, .number n => (Number.ofNumeral? n).map Number.toReal
  | _, _ => none

def nullable {α : Type} (read : Reader α) : Reader (Option α)
  | _, .null => some none
  | depth, d => (read depth d).map some

def list {α : Type} (read : Reader α) : Reader (List α)
  | depth + 1, .array items => items.mapM (read depth)
  | _, _ => none

/-- The members of an object; of two with one key the later stays. -/
def keyed {α : Type} (read : Reader α) : Reader (Keyed α)
  | depth + 1, .object members =>
    (members.mapM (member depth)).map Keyed.ofList
  | _, _ => none
where
  member (depth : Nat) (m : Option String × Document) : Option (String × α) :=
    m.1.bind (fun key => (read depth m.2).map (key, ·))

/-- One of a few names, alone or as the only key of an object that holds null. -/
def oneOf {α : Type} (names : List (String × α)) : Reader α
  | _, .text (some s) => names.lookup s
  | _ + 1, .object [(some s, .null)] => names.lookup s
  | _, _ => none

end Reader

inductive Slot where
  | given (document : Document)
  /-- An object without the field. -/
  | missing
  /-- An array that ends before the field. -/
  | cut

/-- The fields found in a document, and the depth to which they may nest. -/
structure Record where
  depth : Nat
  slots : List (String × Slot)

namespace Record

def keys? (members : List (Option String × Document)) : Option (List (String × Document)) :=
  members.mapM (fun m => m.1.map (·, m.2))

/-- The slot of a field in an object, unless the field occurs twice. -/
def slotOf? (members : List (String × Document)) (name : String) : Option Slot :=
  match members.filter (fun m => m.1 == name) with
  | [] => some .missing
  | [m] => some (.given m.2)
  | _ => none

def slotsInOrder : List String → List Document → List (String × Slot)
  | [], _ => []
  | name :: names, [] => (name, .cut) :: slotsInOrder names []
  | name :: names, item :: items => (name, .given item) :: slotsInOrder names items

def of? (names : List String) : Reader Record
  | depth + 1, .object members => do
    let members ← keys? members
    let slots ← names.mapM (fun name => do some (name, ← slotOf? members name))
    some ⟨depth, slots⟩
  | depth + 1, .array items =>
    if items.length ≤ names.length then some ⟨depth, slotsInOrder names items⟩ else none
  | _, _ => none

def slot (r : Record) (name : String) : Slot := (r.slots.lookup name).getD .missing

def required {α : Type} (r : Record) (name : String) (read : Reader α) : Option α :=
  match r.slot name with
  | .given d => read r.depth d
  | .missing | .cut => none

/-- The value of a field that an object may leave out, and that may be null. -/
def optional {α : Type} (r : Record) (name : String) (read : Reader α) : Option (Option α) :=
  match r.slot name with
  | .given d => read.nullable r.depth d
  | .missing => some none
  | .cut => none

def defaulted {α : Type} (r : Record) (name : String) (read : Reader α) (default : α) :
    Option α :=
  match r.slot name with
  | .given d => read r.depth d
  | .missing | .cut => some default

end Record

end ServingSweep.Json
