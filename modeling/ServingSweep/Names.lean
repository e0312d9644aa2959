import ServingSweep.Journal
import ServingSweep.Overrides

/-!
# Names of variants

Every variant of a base model has a name of its own. A registry lists, base by
base, the overrides named so far; how many were named before a set of overrides is
the number in its name, so equal overrides share a name for good.
-/

namespace ServingSweep

/-- The overrides named so far, by base model, in order of naming. -/
structure Names where
  issued : Keyed (Journal Overrides) := []

namespace Names

def baseline (base : String) : String := base ++ "_config_default"

def numbered (base : String) (n : Nat) : String := base ++ "_config_" ++ Nat.repr n

def known (names : Names) (base : String) : Journal Overrides := (names.issued.get? base).getD {}

def listed (names : Names) (base : String) : List Overrides := (names.known base).toList

/-- How many sets of overrides were named before this one, if it was; of those known
the last comes first. -/
def place? (overrides : Overrides) : List Overrides → Option Nat
  | [] => none
  | o :: older =>
    if Value.sameEntries o overrides then some older.length else place? overrides older

/-- The name of a set of overrides, issued on first use. -/
def name (names : Names) (base : String) (overrides : Overrides) : String × Names :=
  if overrides.isBaseline then (baseline base, names)
  else
    let known := names.known base
    match place? overrides known.latest with
    | some n => (numbered base n, names)
    | none => (numbered base known.length, ⟨names.issued.insert base (known.push overrides)⟩)

/-! ### What naming changes -/

theorem name_baseline (names : Names) (base : String) :
    names.name base [] = (baseline base, names) := rfl

theorem listed_insert (names : Names) (base other : String) (known : Journal Overrides) :
    (Names.mk (names.issued.insert base known)).listed other =
      if other = base then known.toList else names.listed other := by
  simp only [listed, Names.known, Keyed.get?_insert]
  split <;> rfl

/-- Naming for one base leaves every other base alone. -/
theorem listed_name_of_ne {names : Names} {base other : String} (overrides : Overrides)
    (h : other ≠ base) : (names.name base overrides).2.listed other = names.listed other := by
  unfold name
  split
  · rfl
  · dsimp only
    split
    · rfl
    · simp only [listed_insert, if_neg h]

end Names

end ServingSweep
