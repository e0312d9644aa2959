import ServingSweep.Keyed
import ServingSweep.Binary64

/-!
# Configuration values

A value is a scalar, a sequence or a mapping; a configuration is a mapping at top
level. Equality is identity of structure: floats compare by bits, so an integer
never equals a float, a NaN equals itself and the two zeros differ.
-/

namespace ServingSweep

inductive Scalar where
  | null
  | bool (value : Bool)
  | int (value : Int64)
  | float (value : Binary64)
  | text (value : String)
  deriving DecidableEq

inductive Value where
  | scalar (value : Scalar)
  | sequence (items : List Value)
  | mapping (entries : List (String × Value))

abbrev Config := Keyed Value

namespace Value

instance : Inhabited Value := ⟨.scalar .null⟩

def null : Value := .scalar .null

def bool (b : Bool) : Value := .scalar (.bool b)

def int (n : Int64) : Value := .scalar (.int n)

def word (n : UInt32) : Value := .int (Int64.ofNat n.toNat)

def float (x : Binary64) : Value := .scalar (.float x)

def text (s : String) : Value := .scalar (.text s)

/-- A mapping without entries; it turns a section on with its defaults. -/
def emptyMapping : Value := .mapping []

def isNull : Value → Bool
  | .scalar .null => true
  | _ => false

def asMapping? : Value → Option Config
  | .mapping entries => some entries
  | _ => none

def asInt? : Value → Option Int64
  | .scalar (.int n) => some n
  | _ => none

def asText? : Value → Option String
  | .scalar (.text s) => some s
  | _ => none

/-! ### Equality -/

mutual

def same : Value → Value → Bool
  | .scalar a, .scalar b => decide (a = b)
  | .sequence a, .sequence b => sameItems a b
  | .mapping a, .mapping b => sameEntries a b
  | _, _ => false

def sameItems : List Value → List Value → Bool
  | [], [] => true
  | a :: as, b :: bs => same a b && sameItems as bs
  | _, _ => false

def sameEntries : List (String × Value) → List (String × Value) → Bool
  | [], [] => true
  | (k, a) :: as, (l, b) :: bs => k == l && same a b && sameEntries as bs
  | _, _ => false

end

mutual

theorem same_iff : ∀ a b : Value, same a b = true ↔ a = b
  | .scalar a, b => by cases b <;> simp [same]
  | .sequence a, b => by cases b <;> simp [same, sameItems_iff a]
  | .mapping a, b => by cases b <;> simp [same, sameEntries_iff a]

theorem sameItems_iff : ∀ a b : List Value, sameItems a b = true ↔ a = b
  | [], b => by cases b <;> simp [sameItems]
  | a :: as, b => by cases b <;> simp [sameItems, same_iff a, sameItems_iff as]

theorem sameEntries_iff : ∀ a b : List (String × Value), sameEntries a b = true ↔ a = b
  | [], b => by cases b <;> simp [sameEntries]
  | (k, a) :: as, b => by
    rcases b with _ | ⟨⟨l, b⟩, bs⟩ <;> simp [sameEntries, same_iff a, sameEntries_iff as]

end

instance : DecidableEq Value := fun a b => decidable_of_iff _ (same_iff a b)

/-! ### Order of the keys -/

mutual

def Ordered : Value → Prop
  | .scalar _ => True
  | .sequence items => OrderedItems items
  | .mapping entries => Keyed.Ordered entries ∧ OrderedEntries entries

def OrderedItems : List Value → Prop
  | [] => True
  | item :: items => Ordered item ∧ OrderedItems items

def OrderedEntries : List (String × Value) → Prop
  | [] => True
  | (_, value) :: entries => Ordered value ∧ OrderedEntries entries

end

mutual

def decideOrdered : ∀ v : Value, Decidable v.Ordered
  | .scalar _ => isTrue trivial
  | .sequence items => decideOrderedItems items
  | .mapping entries =>
    @instDecidableAnd _ _ (inferInstanceAs (Decidable (Keyed.Ordered entries)))
      (decideOrderedEntries entries)

def decideOrderedItems : ∀ items : List Value, Decidable (OrderedItems items)
  | [] => isTrue trivial
  | item :: items => @instDecidableAnd _ _ (decideOrdered item) (decideOrderedItems items)

def decideOrderedEntries : ∀ entries : List (String × Value), Decidable (OrderedEntries entries)
  | [] => isTrue trivial
  | (_, value) :: entries =>
    @instDecidableAnd _ _ (decideOrdered value) (decideOrderedEntries entries)

end

instance (v : Value) : Decidable v.Ordered := decideOrdered v

end Value

end ServingSweep
