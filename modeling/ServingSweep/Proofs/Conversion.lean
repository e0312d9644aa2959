import ServingSweep.Proofs.Binary64
import ServingSweep.Proofs.Value

/-!
Values and JSON, one made of the other. A value comes back from its JSON with null for each float
that is not finite, and JSON from its value with a float for each integer beyond 63 bits; nothing
else changes, at any depth. By value, JSON does not tell the two zeros apart (`equals_toJson_iff`).
A document that is read as a value gives what its JSON is converted to.
-/

namespace ServingSweep
open Json (Reader Document)

/-! ### Numbers and scalars -/

/-- A float in place of an integer that 63 bits and a sign do not hold. -/
def Json.Number.narrowed : Json.Number → Json.Number
  | .integer n =>
    if n.val < 0x8000000000000000 then .integer n
    else .real ⟨.ofInt n.val, Binary64.isFinite_ofInt n.val⟩
  | .real x => .real x

def Json.Number.unsignZero : Json.Number → Json.Number
  | .integer n => .integer n
  | .real x => .real ⟨x.val.unsignZero, (Binary64.isFinite_unsignZero _).trans x.finite⟩

namespace Scalar

/-- Null in place of a float that is not finite. -/
def cleared : Scalar → Scalar
  | .float x => if x.isFinite then .float x else .null
  | s => s

def unsignZero : Scalar → Scalar
  | .float x => .float x.unsignZero
  | s => s

theorem cleared_eq_iff {s : Scalar} : s.cleared = s ↔ ∀ x ∈ s.floats, x.isFinite = true := by
  cases s with
  | float x =>
    rw [floats, List.forall_mem_singleton, cleared]
    cases x.isFinite <;> simp
  | _ => exact iff_of_true rfl (List.forall_mem_nil _)

theorem narrow?_eq (n : WideInt) : narrow? n.val =
    if n.val < 0x8000000000000000 then some (Int64.ofInt n.val) else none := by
  rw [narrow?]
  simp only [n.lower, true_and]

theorem wide_ofInt {n : WideInt} (fits : n.val < 0x8000000000000000) :
    wide (Int64.ofInt n.val) = n := by
  have value : (Int64.ofInt n.val).toInt = n.val := Int64.toInt_ofInt_of_le n.lower fits
  cases n
  simp only [wide, value]

/-- The JSON of a number is the number again, unless it was too wide an integer. -/
theorem toJson_ofNumber (n : Json.Number) : (ofNumber n).toJson = .number n.narrowed := by
  cases n with
  | integer n =>
    rw [ofNumber, narrow?_eq, Json.Number.narrowed]
    split
    · next fits =>
      exact congrArg (fun n => Json.number (.integer n)) (wide_ofInt fits)
    · exact Binary64.real_of_finite (Binary64.isFinite_ofInt n.val)
  | real x => exact Binary64.real_of_finite x.finite

/-- A number is read as an integer where 63 bits hold it, and else as a float. -/
theorem read_ofNumber (depth : Nat) (n : Numeral) :
    read depth (.number n) = (Json.Number.ofNumeral? n).map ofNumber := by
  rw [read_number, readInt, readFloat, Reader.integer?, Reader.real]
  cases Json.Number.ofNumeral? n with
  | none => rfl
  | some number =>
    cases number with
    | integer n =>
      simp only [Option.map_some, ofNumber, Option.bind_some, Json.Number.toReal]
      cases narrow? n.val <;> rfl
    | real x => rfl

end Scalar

/-! ### All levels -/

namespace Json

mutual

def mapNumbers (f : Number → Number) : Json → Json
  | .null => .null
  | .bool b => .bool b
  | .number n => .number (f n)
  | .text s => .text s
  | .array items => .array (mapNumbersItems f items)
  | .object members => .object (mapNumbersMembers f members)

def mapNumbersItems (f : Number → Number) : List Json → List Json
  | [] => []
  | item :: items => mapNumbers f item :: mapNumbersItems f items

def mapNumbersMembers (f : Number → Number) : List (String × Json) → List (String × Json)
  | [] => []
  | (key, value) :: members => (key, mapNumbers f value) :: mapNumbersMembers f members

end

/-! ### Equality by value -/

/-- Numbers are compared within their kind, floats in the numeric order, where both zeros are one. -/
def Number.equals : Number → Number → Bool
  | .integer m, .integer n => decide (m = n)
  | .real x, .real y => decide (x.val.key = y.val.key)
  | _, _ => false

mutual

def equals : Json → Json → Bool
  | .null, .null => true
  | .bool a, .bool b => a == b
  | .number m, .number n => m.equals n
  | .text a, .text b => a == b
  | .array as, .array bs => equalItems as bs
  | .object ms, .object ns => equalMembers ms ns
  | _, _ => false

def equalItems : List Json → List Json → Bool
  | [], [] => true
  | a :: as, b :: bs => equals a b && equalItems as bs
  | _, _ => false

def equalMembers : List (String × Json) → List (String × Json) → Bool
  | [], [] => true
  | (k, a) :: ms, (l, b) :: ns => k == l && equals a b && equalMembers ms ns
  | _, _ => false

end

theorem Number.equals_iff {m n : Number} : m.equals n = true ↔ m.unsignZero = n.unsignZero := by
  cases m with
  | integer m => cases n <;> simp [equals, unsignZero]
  | real x =>
    cases n with
    | integer n => simp [equals, unsignZero]
    | real y => simp [equals, unsignZero, Binary64.key_eq_iff]

mutual

theorem equals_iff : ∀ a b : Json, a.equals b = true ↔
    a.mapNumbers Number.unsignZero = b.mapNumbers Number.unsignZero
  | .null, b | .bool _, b | .text _, b => by cases b <;> simp [equals, mapNumbers]
  | .number m, b => by cases b <;> simp [equals, mapNumbers, Number.equals_iff]
  | .array as, b => by cases b <;> simp [equals, mapNumbers, equalItems_iff as]
  | .object ms, b => by cases b <;> simp [equals, mapNumbers, equalMembers_iff ms]

theorem equalItems_iff : ∀ as bs : List Json, equalItems as bs = true ↔
    mapNumbersItems Number.unsignZero as = mapNumbersItems Number.unsignZero bs
  | [], bs => by cases bs <;> simp [equalItems, mapNumbersItems]
  | a :: as, bs => by
    cases bs <;> simp [equalItems, mapNumbersItems, equals_iff a, equalItems_iff as]

theorem equalMembers_iff : ∀ ms ns : List (String × Json), equalMembers ms ns = true ↔
    mapNumbersMembers Number.unsignZero ms = mapNumbersMembers Number.unsignZero ns
  | [], ns => by cases ns <;> simp [equalMembers, mapNumbersMembers]
  | (_, a) :: ms, ns => by
    cases ns <;> simp [equalMembers, mapNumbersMembers, equals_iff a, equalMembers_iff ms]

end

end Json

namespace Value

mutual

def mapScalars (f : Scalar → Scalar) : Value → Value
  | .scalar s => .scalar (f s)
  | .sequence items => .sequence (mapScalarsItems f items)
  | .mapping entries => .mapping (mapScalarsEntries f entries)

def mapScalarsItems (f : Scalar → Scalar) : List Value → List Value
  | [] => []
  | item :: items => mapScalars f item :: mapScalarsItems f items

def mapScalarsEntries (f : Scalar → Scalar) : List (String × Value) → List (String × Value)
  | [] => []
  | (key, value) :: entries => (key, mapScalars f value) :: mapScalarsEntries f entries

end

/-- The value with null for each float that is not finite. -/
def cleared (v : Value) : Value := v.mapScalars Scalar.cleared

/-! ### There and back -/

theorem ofJson_toJson_scalar (s : Scalar) : ofJson s.toJson = .scalar s.cleared := by
  cases s with
  | int n =>
    change Value.scalar (Scalar.ofNumber (.integer (Scalar.wide n))) = _
    rw [Scalar.ofNumber, Scalar.wide, Scalar.narrow?_toInt]
    rfl
  | float x =>
    change ofJson (Json.real x) = _
    cases finite : x.isFinite with
    | true =>
      rw [Binary64.real_of_finite finite, Scalar.cleared, if_pos finite]
      rfl
    | false =>
      rw [Binary64.real_of_not_finite finite, Scalar.cleared, finite]
      rfl
  | _ => rfl

mutual

theorem ofJson_toJson : ∀ v : Value, ofJson v.toJson = v.cleared
  | .scalar s => ofJson_toJson_scalar s
  | .sequence items => congrArg Value.sequence (ofJson_toJson_items items)
  | .mapping entries => congrArg Value.mapping (ofJson_toJson_entries entries)

theorem ofJson_toJson_items : ∀ items : List Value,
    ofJsonItems (toJsonItems items) = mapScalarsItems Scalar.cleared items
  | [] => rfl
  | item :: items => congrArg₂ List.cons (ofJson_toJson item) (ofJson_toJson_items items)

theorem ofJson_toJson_entries : ∀ entries : List (String × Value),
    ofJsonMembers (toJsonEntries entries) = mapScalarsEntries Scalar.cleared entries
  | [] => rfl
  | (key, value) :: entries =>
    congrArg₂ (fun value entries => (key, value) :: entries) (ofJson_toJson value)
      (ofJson_toJson_entries entries)

end

mutual

theorem toJson_ofJson : ∀ j : Json, (ofJson j).toJson = j.mapNumbers Json.Number.narrowed
  | .null | .bool _ | .text _ => rfl
  | .number n => Scalar.toJson_ofNumber n
  | .array items => congrArg Json.array (toJson_ofJson_items items)
  | .object members => congrArg Json.object (toJson_ofJson_members members)

theorem toJson_ofJson_items : ∀ items : List Json,
    toJsonItems (ofJsonItems items) = Json.mapNumbersItems Json.Number.narrowed items
  | [] => rfl
  | item :: items => congrArg₂ List.cons (toJson_ofJson item) (toJson_ofJson_items items)

theorem toJson_ofJson_members : ∀ members : List (String × Json),
    toJsonEntries (ofJsonMembers members) = Json.mapNumbersMembers Json.Number.narrowed members
  | [] => rfl
  | (key, value) :: members =>
    congrArg₂ (fun value members => (key, value) :: members) (toJson_ofJson value)
      (toJson_ofJson_members members)

end

/-! ### What JSON tells apart -/

theorem toJson_cleared_scalar (s : Scalar) : s.cleared.toJson = s.toJson := by
  cases s with
  | float x =>
    rw [Scalar.cleared]
    cases finite : x.isFinite with
    | true => rfl
    | false => exact (Binary64.real_of_not_finite finite).symm
  | _ => rfl

mutual

theorem toJson_cleared : ∀ v : Value, v.cleared.toJson = v.toJson
  | .scalar s => toJson_cleared_scalar s
  | .sequence items => congrArg Json.array (toJson_cleared_items items)
  | .mapping entries => congrArg Json.object (toJson_cleared_entries entries)

theorem toJson_cleared_items : ∀ items : List Value,
    toJsonItems (mapScalarsItems Scalar.cleared items) = toJsonItems items
  | [] => rfl
  | item :: items => congrArg₂ List.cons (toJson_cleared item) (toJson_cleared_items items)

theorem toJson_cleared_entries : ∀ entries : List (String × Value),
    toJsonEntries (mapScalarsEntries Scalar.cleared entries) = toJsonEntries entries
  | [] => rfl
  | (key, value) :: entries =>
    congrArg₂ (fun value entries => (key, value) :: entries) (toJson_cleared value)
      (toJson_cleared_entries entries)

end

theorem toJson_eq_iff (u v : Value) : u.toJson = v.toJson ↔ u.cleared = v.cleared := by
  constructor
  · intro same
    rw [← ofJson_toJson, ← ofJson_toJson, same]
  · intro same
    rw [← toJson_cleared u, same, toJson_cleared]

mutual

theorem cleared_eq_iff : ∀ v : Value, v.cleared = v ↔ ∀ x ∈ v.floats, x.isFinite = true
  | .scalar _ => (Value.scalar.injEq ..).to_iff.trans Scalar.cleared_eq_iff
  | .sequence items => (Value.sequence.injEq ..).to_iff.trans (cleared_eq_iff_items items)
  | .mapping entries => (Value.mapping.injEq ..).to_iff.trans (cleared_eq_iff_entries entries)

theorem cleared_eq_iff_items : ∀ items : List Value,
    mapScalarsItems Scalar.cleared items = items ↔ ∀ x ∈ floatsItems items, x.isFinite = true
  | [] => iff_of_true rfl (List.forall_mem_nil _)
  | item :: items => by
    rw [mapScalarsItems, floatsItems, List.cons.injEq, List.forall_mem_append]
    exact and_congr (cleared_eq_iff item) (cleared_eq_iff_items items)

theorem cleared_eq_iff_entries : ∀ entries : List (String × Value),
    mapScalarsEntries Scalar.cleared entries = entries ↔
      ∀ x ∈ floatsEntries entries, x.isFinite = true
  | [] => iff_of_true rfl (List.forall_mem_nil _)
  | (key, value) :: entries => by
    rw [mapScalarsEntries, floatsEntries, List.cons.injEq, Prod.mk.injEq, List.forall_mem_append,
      and_iff_right rfl]
    exact and_congr (cleared_eq_iff value) (cleared_eq_iff_entries entries)

end

/-- A value comes back from its JSON unless a float of it is not finite, which leaves null. Values
have the same JSON, zeros told apart by their sign, when they agree but for such floats and nulls.
JSON comes back from its value but for integers beyond 63 bits, which leave floats. -/
theorem converts_back :
    (∀ v : Value, ofJson v.toJson = v.cleared) ∧
    (∀ v : Value, ofJson v.toJson = v ↔ ∀ x ∈ v.floats, x.isFinite = true) ∧
    (∀ u v : Value, u.toJson = v.toJson ↔ u.cleared = v.cleared) ∧
    (∀ (n : Int64) (x : Binary64), (int n).toJson ≠ (float x).toJson) ∧
    ∀ j : Json, (ofJson j).toJson = j.mapNumbers Json.Number.narrowed := by
  refine ⟨ofJson_toJson, fun v => ?_, toJson_eq_iff, fun n x same => ?_, toJson_ofJson⟩
  · rw [ofJson_toJson, cleared_eq_iff]
  · have cleared := Value.scalar.inj ((toJson_eq_iff _ _).mp same)
    simp only [Scalar.cleared] at cleared
    split at cleared
    · cases cleared
    · cases cleared

/-- Of a float that is no number, a negative zero and an integer, the first leaves null. -/
example :
    ofJson (sequence [float ⟨0x7FF8000000000000⟩,
        mapping [("x", float ⟨0x8000000000000000⟩)], int 1]).toJson =
      sequence [null, mapping [("x", float ⟨0x8000000000000000⟩)], int 1] := rfl

/-- The least integer beyond 63 bits leaves a float. -/
example :
    ofJson (.array [.number (.integer ⟨0x8000000000000000, by decide, by decide⟩)]) =
      sequence [float ⟨0x43E0000000000000⟩] := by decide +kernel

/-! ### What equality by value tells apart -/

theorem toJson_unsignZero_scalar (s : Scalar) :
    s.unsignZero.toJson = s.toJson.mapNumbers Json.Number.unsignZero := by
  cases s with
  | float x =>
    change Json.real x.unsignZero = (Json.real x).mapNumbers _
    cases finite : x.isFinite with
    | true =>
      rw [Binary64.real_of_finite finite,
        Binary64.real_of_finite ((Binary64.isFinite_unsignZero x).trans finite)]
      rfl
    | false =>
      rw [Binary64.real_of_not_finite finite,
        Binary64.real_of_not_finite ((Binary64.isFinite_unsignZero x).trans finite)]
      rfl
  | _ => rfl

def unsigned (v : Value) : Value := v.mapScalars Scalar.unsignZero

mutual

theorem toJson_unsigned : ∀ v : Value,
    v.unsigned.toJson = v.toJson.mapNumbers Json.Number.unsignZero
  | .scalar s => toJson_unsignZero_scalar s
  | .sequence items => congrArg Json.array (toJson_unsigned_items items)
  | .mapping entries => congrArg Json.object (toJson_unsigned_entries entries)

theorem toJson_unsigned_items : ∀ items : List Value,
    toJsonItems (mapScalarsItems Scalar.unsignZero items) =
      Json.mapNumbersItems Json.Number.unsignZero (toJsonItems items)
  | [] => rfl
  | item :: items => congrArg₂ List.cons (toJson_unsigned item) (toJson_unsigned_items items)

theorem toJson_unsigned_entries : ∀ entries : List (String × Value),
    toJsonEntries (mapScalarsEntries Scalar.unsignZero entries) =
      Json.mapNumbersMembers Json.Number.unsignZero (toJsonEntries entries)
  | [] => rfl
  | (key, value) :: entries =>
    congrArg₂ (fun value entries => (key, value) :: entries) (toJson_unsigned value)
      (toJson_unsigned_entries entries)

end

/-- By value, written values are equal when they agree up to the signs of their zeros and but for
floats that are not finite. -/
theorem equals_toJson_iff (u v : Value) :
    u.toJson.equals v.toJson = true ↔ u.unsigned.cleared = v.unsigned.cleared := by
  rw [Json.equals_iff, ← toJson_unsigned, ← toJson_unsigned, toJson_eq_iff]

/-- The two zeros are equal by value. -/
example : (float ⟨0⟩).toJson.equals (float ⟨0x8000000000000000⟩).toJson = true := by decide

/-! ### Reading -/

theorem ofJsonMembers_eq (members : List (String × Json)) :
    ofJsonMembers members = members.map (fun e => (e.1, ofJson e.2)) := by
  induction members with
  | nil => rfl
  | cons e members ih => rw [ofJsonMembers, ih, List.map_cons]

theorem ofJsonMembers_ofList (members : List (String × Json)) :
    ofJsonMembers (Keyed.ofList members) = Keyed.ofList (ofJsonMembers members) := by
  rw [ofJsonMembers_eq, ofJsonMembers_eq, Keyed.ofList_map]

mutual

/-- Whatever a document holds, at most so deep, its value is what its JSON is converted to. -/
theorem read_converted : ∀ (d : Document) (depth : Nat),
    read depth d = (Json.ofDocument? depth d).map ofJson
  | .null, _ | .bool _, _ => rfl
  | .text s, _ => by cases s <;> rfl
  | .number n, depth => by
    change (Scalar.read depth (.number n)).map Value.scalar = _
    rw [Scalar.read_ofNumber, Json.ofDocument?, Option.map_map, Option.map_map]
    rfl
  | .array _, 0 | .object _, 0 => rfl
  | .array docs, depth + 1 => by
    have inner := readItems_converted docs depth
    rw [read_array, Reader.list, ← readItems_eq, inner, Json.ofDocument?, Option.map_map,
      Option.map_map]
    rfl
  | .object members, depth + 1 => by
    have inner := readMembers_converted members depth
    rw [read_object, Reader.keyed, ← readMembers_eq, inner, Json.ofDocument?, Option.map_map,
      Option.map_map, Option.map_map]
    exact congrArg (Option.map · _)
      (funext fun ms => congrArg Value.mapping (ofJsonMembers_ofList ms).symm)

theorem readItems_converted : ∀ (docs : List Document) (depth : Nat),
    readItems depth docs = (Json.ofItems? depth docs).map ofJsonItems
  | [], _ => rfl
  | d :: docs, depth => by
    rw [readItems, Json.ofItems?, read_converted d depth, readItems_converted docs depth]
    cases Json.ofDocument? depth d with
    | none => rfl
    | some j => cases Json.ofItems? depth docs <;> rfl

theorem readMembers_converted : ∀ (members : List (Option String × Document)) (depth : Nat),
    readMembers depth members = (Json.ofMembers? depth members).map ofJsonMembers
  | [], _ => rfl
  | (none, _) :: _, _ => rfl
  | (some key, d) :: members, depth => by
    simp only [readMembers, Json.ofMembers?, read_converted d depth,
      readMembers_converted members depth]
    cases Json.ofDocument? depth d with
    | none => rfl
    | some j => cases Json.ofMembers? depth members <;> rfl

end

/-- A text that is read as a value gives what is made of it by reading JSON and converting that, and
nothing where that gives nothing. -/
theorem reads_as_converted (text : String) :
    Reader.ofText? Value.read text = (Reader.ofText? Json.ofDocument? text).map ofJson := by
  rw [Reader.ofText?, Reader.ofText?]
  cases Document.ofText? text with
  | none => rfl
  | some d => exact read_converted d Json.maxDepth

end Value
end ServingSweep
