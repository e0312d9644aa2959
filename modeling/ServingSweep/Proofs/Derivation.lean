import ServingSweep.Proofs.Names
import ServingSweep.Proofs.Overlay
import ServingSweep.Variant.Derive

/-!
What a derived variant is. `build_eq` gives a variant field by field, and `derives` says of any base
and any overrides what the variant holds at each key, how it is tagged and what is named.
-/

namespace ServingSweep

/-! ### Overrides that are laid on -/

namespace Overrides

theorem mem_effective {o : Overrides} {e : String × Value} :
    e ∈ o.effective ↔ e ∈ o ∧ e.2.isNull = false := by
  simp [effective]

theorem canonical_effective {o : Overrides} (canonical : Config.Canonical o) :
    Config.Canonical o.effective := by
  refine ⟨List.Pairwise.filter _ canonical.1, Value.orderedEntries_iff.mpr ?_⟩
  intro e member
  exact Value.orderedEntries_iff.mp canonical.2 e (mem_effective.mp member).1

theorem get?_effective {o : Overrides} (distinct : (Keyed.keys o).Nodup) (key : String) :
    Keyed.get? o.effective key = (Keyed.get? o key).filter (fun v => !v.isNull) := by
  have sifted : (Keyed.keys o.effective).Nodup := distinct.sublist (List.filter_sublist.map _)
  refine Option.ext fun v => ?_
  rw [Keyed.get?_eq_some_iff sifted, mem_effective, Option.filter_eq_some_iff,
    Keyed.get?_eq_some_iff distinct, Bool.not_eq_true']

end Overrides

namespace Variant

/-! ### Building -/

def underName (name : String) (base : Config) : Config := Keyed.insert base "name" (.text name)

theorem build_eq (name : String) (m : Model) (o : Overrides) (base : Config) :
    build name m o base =
      { name := name
        config := Config.overlayAll (underName name base) o.effective
        tags := (if o = [] then [.baseline] else []) ++ if m.cpuOnly then [.cpuOnly] else [] } := by
  unfold underName
  cases o <;> cases cpuOnly : m.cpuOnly <;> simp [build, tagIf, tag, cpuOnly, Overrides.isBaseline]

theorem name_build (name : String) (m : Model) (o : Overrides) (base : Config) :
    (build name m o base).name = name := by rw [build_eq]

theorem config_build (name : String) (m : Model) (o : Overrides) (base : Config) :
    (build name m o base).config = Config.overlayAll (underName name base) o.effective := by
  rw [build_eq]

theorem has_build (name : String) (m : Model) (o : Overrides) (base : Config) :
    (build name m o base).has .baseline = o.isBaseline := by
  rw [build_eq]
  cases o <;> cases m.cpuOnly <;> rfl

section
variable {base : Config} {o : Overrides}

theorem canonical_underName (canonical : base.Canonical) (name : String) :
    (underName name base).Canonical := Config.canonical_insert canonical "name" trivial

theorem canonical_build (canonical : base.Canonical) (sorted : Config.Canonical o) (name : String)
    (m : Model) : (build name m o base).config.Canonical := by
  rw [config_build]
  exact Config.canonical_overlayAll _ (Overrides.canonical_effective sorted).2
    (canonical_underName canonical name)

/-- At each key an override is merged with what the base holds there, unless it is null. -/
theorem get?_build (canonical : base.Canonical) (sorted : Config.Canonical o) (name : String)
    (m : Model) (key : String) :
    Keyed.get? (build name m o base).config key =
      Value.merge? (Keyed.get? (underName name base) key)
        ((Keyed.get? o key).filter (fun v => !v.isNull)) := by
  have effective := Overrides.canonical_effective sorted
  rw [config_build, Config.get?_overlayAll _ effective.2 effective.1.nodup
    (canonical_underName canonical name), Overrides.get?_effective sorted.1.nodup]

/-- The overrides may be laid on in any order. -/
theorem config_build_of_perm (canonical : base.Canonical) (sorted : Config.Canonical o)
    {pairs : List (String × Value)} (perm : pairs.Perm o) (name : String) (m : Model) :
    Config.overlayAll (underName name base) (Overrides.effective pairs) =
      (build name m o base).config := by
  have effective := Overrides.canonical_effective sorted
  rw [config_build]
  exact (Config.overlayAll_of_perm (canonical_underName canonical name)
    (Value.orderedEntries_iff.mp effective.2) effective.1.nodup (perm.symm.filter _)).symm

/-- What is no mapping is found in the variant where the overrides have it, nulls within mappings
included. -/
theorem at?_build (canonical : base.Canonical) (sorted : Config.Canonical o) (name : String)
    (m : Model) {key : String} {path : List String} {leaf : Value} (plain : leaf.asMapping? = none)
    (told : path ≠ [] ∨ leaf ≠ .null) (found : (Value.mapping o).at? (key :: path) = some leaf) :
    (Value.mapping (build name m o base).config).at? (key :: path) = some leaf := by
  obtain ⟨v, held, below⟩ := Option.bind_eq_some_iff.mp found
  change Keyed.get? o key = some v at held
  have written : v.isNull = false := by
    cases null : v.isNull with
    | false => rfl
    | true =>
      obtain rfl := Value.isNull_iff.mp null
      cases path with
      | nil => exact absurd (Option.some.inj below).symm (told.resolve_left (fun deeper => deeper rfl))
      | cons _ _ => cases below
  change (Keyed.get? (build name m o base).config key).bind (Value.at? · path) = some leaf
  rw [get?_build canonical sorted, held, Option.filter_some, written]
  exact Value.at?_merge? plain (sorted.of_get? held)
    (fun _ before => (canonical_underName canonical name).of_get? before) below

end

/-- A variant is the base under the name that is issued for its overrides, with each override that
is not null merged into what is at its key, in whatever order they are laid on. It is tagged as the
baseline if nothing is overridden and then as its model is, and the overrides are listed for the
model if they were not before. -/
theorem derives {base : Config} (canonical : base.Canonical) {o : Overrides}
    (sorted : Config.Canonical o) (m : Model) (w : World) :
    let issued := w.names.name m.name o
    let own := Keyed.insert base "name" (.text issued.1)
    let v := (derive m o base w).1
    v.name = issued.1 ∧ v.config.Canonical ∧
    (∀ key, Keyed.get? v.config key =
      Value.merge? (Keyed.get? own key) ((Keyed.get? o key).filter (fun v => !v.isNull))) ∧
    (∀ key path leaf, leaf.asMapping? = none → path ≠ [] ∨ leaf ≠ .null →
      (Value.mapping o).at? (key :: path) = some leaf →
        (Value.mapping v.config).at? (key :: path) = some leaf) ∧
    (∀ pairs : List (String × Value), pairs.Perm o →
      Config.overlayAll own (Overrides.effective pairs) = v.config) ∧
    (o = [] → v.config = own) ∧
    v.tags = (if o = [] then [.baseline] else []) ++ (if m.cpuOnly then [.cpuOnly] else []) ∧
    v.tags.Nodup ∧
    ∀ model, (derive m o base w).2.names.listed model =
      if model = m.name ∧ o ≠ [] ∧ o ∉ w.names.listed m.name then w.names.listed model ++ [o]
      else w.names.listed model := by
  intro issued own v
  have tags : v.tags = (if o = [] then [.baseline] else []) ++
      (if m.cpuOnly then [.cpuOnly] else []) := congrArg Variant.tags (build_eq _ _ _ _)
  refine ⟨name_build _ _ _ _, canonical_build canonical sorted _ m, get?_build canonical sorted _ m,
    fun _ _ _ plain told => at?_build canonical sorted _ m plain told,
    fun _ perm => config_build_of_perm canonical sorted perm _ m, ?_, tags, ?_,
    Names.listed_name w.names m.name o⟩
  · rintro rfl
    exact config_build _ _ _ _
  · rw [tags]
    split <;> split <;> decide

def sectionBase : Config := [("batching", .mapping [("delay", .int 100)]), ("name", .text "old")]

def sectionOverrides : Overrides :=
  [("batching", .mapping [("queue", .null)]), ("max_batch_size", .int 8), ("name", .null)]

theorem derives_section : sectionBase.Canonical ∧ Config.Canonical sectionOverrides ∧
    let v := (derive { name := "m", cpuOnly := true } sectionOverrides sectionBase {}).1
    v.name = "m_config_0" ∧
    v.config = [("batching", .mapping [("delay", .int 100), ("queue", .null)]),
      ("max_batch_size", .int 8), ("name", .text "m_config_0")] ∧
    (Value.mapping v.config).at? ["batching", "queue"] = some .null ∧
    Config.overlayAll (Keyed.insert sectionBase "name" (.text "m_config_0"))
      (Overrides.effective sectionOverrides.reverse) = v.config ∧
    v.tags = [.cpuOnly] ∧
    (derive { name := "m" } [] sectionBase {}).1.config =
      Keyed.insert sectionBase "name" (.text "m_config_default") := by
  have canonical : sectionBase.Canonical := by decide +kernel
  have sorted : Config.Canonical sectionOverrides := by decide +kernel
  obtain ⟨name, -, -, leaves, orders, -, tags, -⟩ :=
    derives canonical sorted { name := "m", cpuOnly := true } {}
  obtain ⟨-, -, -, -, -, baseline, -⟩ :=
    derives canonical (by decide : Config.Canonical []) { name := "m" } {}
  exact ⟨canonical, sorted, name, by decide +kernel,
    leaves "batching" ["queue"] .null rfl (.inl (List.cons_ne_nil _ _)) rfl,
    orders _ (List.reverse_perm _), tags, baseline rfl⟩

end Variant
end ServingSweep
