import ServingSweep.Proofs.Json.Readers
import ServingSweep.Value.Json

/-!
Configuration values read back from their JSON. A value survives exactly when it nests no deeper
than its reader goes and each float in it reads back: a float that is not finite is written as null
and comes back as that.
-/

namespace ServingSweep
open Json (Reader Alike)

namespace Scalar
variable {depth : Nat}

def floats : Scalar → List Binary64
  | .float x => [x]
  | _ => []

theorem narrow?_toInt (n : Int64) : narrow? n.toInt = some n := by
  have lower := Int64.le_toInt n
  have upper := Int64.toInt_lt n
  rw [narrow?, if_pos ⟨by omega, by omega⟩, Int64.ofInt_toInt]

/-- A number is an integer if it can be one, and else a float. -/
theorem read_number (n : Numeral) :
    read depth (.number n) = (readInt depth (.number n)).or (readFloat depth (.number n)) := by
  simp only [read, readNull, readBool, readText, Reader.bool, Reader.text, Option.map_none,
    List.findSome?_cons, List.findSome?_nil]
  cases readInt depth (.number n) with
  | some s => rfl
  | none => cases readFloat depth (.number n) <;> rfl

theorem read_integer (n : Int64) :
    read depth (.number (Json.Number.integer (wide n)).numeral) = some (.int n) := by
  have value : readInt depth (.number (Json.Number.integer (wide n)).numeral) = some (.int n) := by
    rw [readInt, Reader.integer?_numeral, Option.bind_some]
    exact congrArg (Option.map Scalar.int) (narrow?_toInt n)
  rw [read_number, value, Option.some_or]

theorem read_real (x : Finite) : read depth (.number (Json.Number.real x).numeral) =
    (Reader.real depth (.number (Json.Number.real x).numeral)).map .float := by
  have other : readInt depth (.number (Json.Number.real x).numeral) = none := by
    rw [readInt, Reader.integer?, Json.Number.ofNumeral?_real]
    cases (Json.Number.real x).numeral.real? with
    | none => rfl
    | some y =>
      rw [Option.bind_some, Json.Number.ofReal?]
      by_cases finite : y.isFinite = true
      · rw [dif_pos finite]
        rfl
      · rw [dif_neg finite]
        rfl
  rw [read_number, other, Option.none_or, readFloat]

theorem keeps (s : Scalar) : read.Keeps depth s s.toJson (∀ x ∈ s.floats, x.ReadsBack) := by
  intro written alike
  cases s with
  | null =>
    cases alike
    exact iff_of_true rfl nofun
  | bool b =>
    cases alike
    exact iff_of_true rfl nofun
  | int n =>
    cases alike
    exact iff_of_true (read_integer n) nofun
  | text s =>
    cases alike
    exact iff_of_true rfl nofun
  | float x =>
    have back : Reader.real depth written.document = some x ↔ x.ReadsBack :=
      Binary64.keeps_real x written alike
    rw [floats, List.forall_mem_singleton, ← back]
    change Alike (Json.real x) written at alike
    cases finite : x.isFinite with
    | true =>
      rw [Binary64.real_of_finite finite] at alike
      cases alike
      have float : Function.Injective Scalar.float := fun _ _ => Scalar.float.inj
      rw [← (Option.map_injective float).eq_iff]
      exact (congrArg (· = some (Scalar.float x)) (read_real ⟨x, finite⟩)).to_iff
    | false =>
      rw [Binary64.real_of_not_finite finite] at alike
      cases alike
      exact iff_of_false nofun nofun

end Scalar

namespace Value

mutual

def height : Value → Nat
  | .scalar _ => 0
  | .sequence items => heightItems items + 1
  | .mapping entries => heightEntries entries + 1

def heightItems : List Value → Nat
  | [] => 0
  | item :: items => max (height item) (heightItems items)

def heightEntries : List (String × Value) → Nat
  | [] => 0
  | (_, value) :: entries => max (height value) (heightEntries entries)

end

mutual

def floats : Value → List Binary64
  | .scalar s => s.floats
  | .sequence items => floatsItems items
  | .mapping entries => floatsEntries entries

def floatsItems : List Value → List Binary64
  | [] => []
  | item :: items => floats item ++ floatsItems items

def floatsEntries : List (String × Value) → List Binary64
  | [] => []
  | (_, value) :: entries => floats value ++ floatsEntries entries

end

def Legible (depth : Nat) (v : Value) : Prop := v.height ≤ depth ∧ ∀ x ∈ v.floats, x.ReadsBack

instance (depth : Nat) (v : Value) : Decidable (v.Legible depth) :=
  inferInstanceAs (Decidable (v.height ≤ depth ∧ ∀ x ∈ v.floats, x.ReadsBack))

variable {depth : Nat}

theorem legible_items (items : List Value) : (heightItems items ≤ depth ∧
    ∀ x ∈ floatsItems items, x.ReadsBack) ↔ ∀ item ∈ items, item.Legible depth := by
  induction items with
  | nil => exact iff_of_true ⟨Nat.zero_le _, nofun⟩ nofun
  | cons item items ih =>
    rw [List.forall_mem_cons, ← ih, heightItems, floatsItems, List.forall_mem_append, Nat.max_le,
      Legible]
    exact and_and_and_comm

theorem legible_entries (entries : List (String × Value)) : (heightEntries entries ≤ depth ∧
    ∀ x ∈ floatsEntries entries, x.ReadsBack) ↔ ∀ e ∈ entries, e.2.Legible depth := by
  induction entries with
  | nil => exact iff_of_true ⟨Nat.zero_le _, nofun⟩ nofun
  | cons e entries ih =>
    rw [List.forall_mem_cons, ← ih, heightEntries, floatsEntries, List.forall_mem_append,
      Nat.max_le, Legible]
    exact and_and_and_comm

theorem toJsonItems_eq (items : List Value) : toJsonItems items = items.map toJson := by
  induction items with
  | nil => rfl
  | cons item items ih => rw [toJsonItems, ih, List.map_cons]

theorem toJsonEntries_eq (entries : List (String × Value)) :
    toJsonEntries entries = entries.map (fun e => (e.1, e.2.toJson)) := by
  induction entries with
  | nil => rfl
  | cons e entries ih => rw [toJsonEntries, ih, List.map_cons]

theorem readItems_eq (docs : List Json.Document) : readItems depth docs = docs.mapM (read depth) := by
  induction docs with
  | nil => rfl
  | cons d docs ih =>
    rw [readItems, ih, List.mapM_cons]
    cases read depth d with
    | none => rfl
    | some v => cases docs.mapM (read depth) <;> rfl

theorem readMembers_eq (members : List (Option String × Json.Document)) :
    readMembers depth members = members.mapM (Reader.keyed.member read depth) := by
  induction members with
  | nil => rfl
  | cons m members ih =>
    obtain ⟨key, d⟩ := m
    unfold readMembers
    rw [ih, List.mapM_cons]
    cases key with
    | none => rfl
    | some key =>
      rw [Reader.keyed.member]
      cases read depth d with
      | none => rfl
      | some v => cases members.mapM (Reader.keyed.member read depth) <;> rfl

theorem read_array (docs : List Json.Document) :
    read depth (.array docs) = (Reader.list read depth (.array docs)).map .sequence := by
  rw [read]
  change Option.or none _ = _
  cases depth with
  | zero => rfl
  | succ depth => rw [Option.none_or, inside, readItems_eq, Reader.list]

/-- A mapping is read as a map, unless it could be a scalar. -/
theorem read_object (members : List (Option String × Json.Document)) :
    read depth (.object members) = (Reader.keyed read depth (.object members)).map .mapping := by
  rw [read]
  change Option.or none _ = _
  cases depth with
  | zero => rfl
  | succ depth => rw [Option.none_or, inside, readMembers_eq, Reader.keyed, Option.map_map]; rfl

/-- On what is neither an array nor an object, a scalar is read. -/
theorem read_scalar (s : Scalar) {written : Json} (alike : Alike s.toJson written) :
    read depth written.document = (Scalar.read depth written.document).map .scalar := by
  cases s with
  | float x =>
    change Alike (Json.real x) written at alike
    cases finite : x.isFinite with
    | true =>
      rw [Binary64.real_of_finite finite] at alike
      cases alike
      rfl
    | false =>
      rw [Binary64.real_of_not_finite finite] at alike
      cases alike
      rfl
  | _ =>
    cases alike
    rfl

theorem keeps_scalar (s : Scalar) :
    Reader.Keeps read depth (.scalar s) s.toJson (Legible depth (.scalar s)) := by
  intro written alike
  have read : Scalar.read depth written.document = some s ↔ _ := s.keeps written alike
  have scalar : Function.Injective Value.scalar := fun _ _ => Value.scalar.inj
  rw [read_scalar s alike, Legible, height, floats, and_iff_right (Nat.zero_le depth), ← read,
    ← (Option.map_injective scalar).eq_iff]
  rfl

theorem keeps_sequence {items : List Value} (each : ∀ item ∈ items, ∀ depth,
    Reader.Keeps read depth item item.toJson (item.Legible depth)) :
    Reader.Keeps read depth (.sequence items) (.array (toJsonItems items))
      (Legible depth (.sequence items)) := by
  intro written alike
  have sequence : Function.Injective Value.sequence := fun _ _ => Value.sequence.inj
  have shape := alike
  rw [toJsonItems_eq] at alike
  obtain ⟨bs, rfl, -⟩ := shape.of_array
  cases depth with
  | zero => exact iff_of_false nofun (fun legible => Nat.not_succ_le_zero _ legible.1)
  | succ depth =>
    have read := Reader.keeps_list (Legible depth) (fun item member => each item member depth) _ alike
    rw [Legible, height, floats, Nat.succ_le_succ_iff, legible_items, ← read,
      ← (Option.map_injective sequence).eq_iff]
    exact (congrArg (· = some (Value.sequence items)) (read_array _)).to_iff

theorem keeps_mapping {entries : List (String × Value)} (ordered : Keyed.Ordered entries)
    (each : ∀ e ∈ entries, ∀ depth, Reader.Keeps read depth e.2 e.2.toJson (e.2.Legible depth)) :
    Reader.Keeps read depth (.mapping entries) (.object (toJsonEntries entries))
      (Legible depth (.mapping entries)) := by
  intro written alike
  have mapping : Function.Injective Value.mapping := fun _ _ => Value.mapping.inj
  have shape := alike
  rw [toJsonEntries_eq] at alike
  obtain ⟨ns, os, rfl, -, -⟩ := shape.of_object
  cases depth with
  | zero => exact iff_of_false nofun (fun legible => Nat.not_succ_le_zero _ legible.1)
  | succ depth =>
    have read := Reader.keeps_keyed (Legible depth) ordered (fun e member => each e member depth) _ alike
    rw [Legible, height, floats, Nat.succ_le_succ_iff, legible_entries, ← read,
      ← (Option.map_injective mapping).eq_iff]
    exact (congrArg (· = some (Value.mapping entries)) (read_object _)).to_iff

mutual

/-- A value reads back exactly when it is legible. -/
theorem keeps : ∀ v : Value, v.Ordered → ∀ depth,
    Reader.Keeps read depth v v.toJson (v.Legible depth)
  | .scalar s, _, _ => keeps_scalar s
  | .sequence items, ordered, _ => keeps_sequence (keepsItems items ordered)
  | .mapping entries, ordered, _ => keeps_mapping ordered.1 (keepsEntries entries ordered.2)

theorem keepsItems : ∀ items : List Value, OrderedItems items →
    ∀ item ∈ items, ∀ depth, Reader.Keeps read depth item item.toJson (item.Legible depth)
  | [], _ => nofun
  | item :: items, ordered =>
    List.forall_mem_cons.mpr ⟨keeps item ordered.1, keepsItems items ordered.2⟩

theorem keepsEntries : ∀ entries : List (String × Value), OrderedEntries entries →
    ∀ e ∈ entries, ∀ depth, Reader.Keeps read depth e.2 e.2.toJson (e.2.Legible depth)
  | [], _ => nofun
  | (_, value) :: entries, ordered =>
    List.forall_mem_cons.mpr ⟨keeps value ordered.1, keepsEntries entries ordered.2⟩

end

end Value

namespace Config
variable {depth : Nat}

def Canonical (c : Config) : Prop := c.Ordered ∧ Value.OrderedEntries c

instance (c : Config) : Decidable c.Canonical :=
  inferInstanceAs (Decidable (Value.Ordered (.mapping c)))

theorem keeps {c : Config} (canonical : c.Canonical) :
    Config.read.Keeps (depth + 1) c c.toJson (∀ e ∈ c, e.2.Legible depth) := by
  rw [toJson, Value.toJsonEntries_eq]
  exact Reader.keeps_keyed (Value.Legible depth) canonical.1
    (fun e member => Value.keepsEntries c canonical.2 e member depth)

end Config

end ServingSweep
