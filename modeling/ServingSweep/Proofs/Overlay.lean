import ServingSweep.Proofs.Keyed
import ServingSweep.Proofs.Value
import ServingSweep.Value.Overlay

/-!
What comes of laying a value on a configuration. By `overlay_merges` its key then holds the old value
and the new one merged, mapping with mapping key by key, and every other key holds what it held.
-/

namespace ServingSweep

namespace Value

def beyond (old new : Config) : Config := new.filter (fun e => (Keyed.get? old e.1).isNone)

mutual

/-- What comes of a new value on an old one. Two mappings are merged key by key; otherwise the new
one replaces the old one. -/
def merge : Value → Value → Value
  | .mapping old, .mapping new =>
    .mapping (Keyed.ofList (mergeEntries old new ++ beyond old new))
  | _, new => new

def mergeEntries : List (String × Value) → Config → List (String × Value)
  | [], _ => []
  | (key, value) :: entries, new =>
    (key, ((Keyed.get? new key).map (merge value)).getD value) :: mergeEntries entries new

end

/-- What a key holds after a merge of two sides, each of which may lack it. -/
def merge? : Option Value → Option Value → Option Value
  | some old, some new => some (merge old new)
  | some old, none => some old
  | none, new => new

/-- What is found in a value along a path of keys. -/
def at? (v : Value) : List String → Option Value
  | [] => some v
  | key :: path => (v.asMapping?.bind (Keyed.get? · key)).bind (at? · path)

theorem isNull_iff {value : Value} : value.isNull = true ↔ value = .null := by
  constructor
  · intro null
    unfold isNull at null
    split at null
    · rfl
    · cases null
  · rintro rfl
    rfl

theorem asMapping?_eq_some_iff {v : Value} {entries : Config} :
    v.asMapping? = some entries ↔ v = .mapping entries := by
  cases v <;> simp [asMapping?]

theorem orderedEntries_iff {entries : List (String × Value)} :
    OrderedEntries entries ↔ ∀ e ∈ entries, e.2.Ordered := by
  induction entries with
  | nil => exact iff_of_true trivial nofun
  | cons e entries ih =>
    rw [List.forall_mem_cons, ← ih]
    rfl

/-! ### Merging -/

@[simp] theorem merge?_none (old : Option Value) : merge? old none = old := by cases old <;> rfl

theorem merge_of_plain {old new : Value} (plain : old.asMapping? = none ∨ new.asMapping? = none) :
    merge old new = new := by
  cases old with
  | mapping entries =>
    cases new with
    | mapping entries => simp [asMapping?] at plain
    | _ => rfl
  | _ => rfl

theorem merge?_of_plain {old : Option Value} {new : Value}
    (plain : old.bind asMapping? = none ∨ new.asMapping? = none) :
    merge? old (some new) = some new := by
  cases old with
  | none => rfl
  | some old => exact congrArg some (merge_of_plain plain)

theorem keys_mergeEntries (old : List (String × Value)) (new : Config) :
    Keyed.keys (mergeEntries old new) = Keyed.keys old := by
  induction old with
  | nil => rfl
  | cons e old ih => exact congrArg (e.1 :: ·) ih

theorem get?_mergeEntries (old : List (String × Value)) (new : Config) (key : String) :
    Keyed.get? (mergeEntries old new) key =
      (Keyed.get? old key).map (fun v => ((Keyed.get? new key).map (merge v)).getD v) := by
  induction old with
  | nil => rfl
  | cons e old ih =>
    obtain ⟨k, value⟩ := e
    rw [mergeEntries, Keyed.get?, Keyed.get?]
    by_cases same : key = k
    · rw [if_pos same, if_pos same, same]
      rfl
    · rw [if_neg same, if_neg same, ih]

theorem get?_beyond (old new : Config) (key : String) : Keyed.get? (beyond old new) key =
    if (Keyed.get? old key).isNone then Keyed.get? new key else none :=
  Keyed.get?_filter (fun k => (Keyed.get? old k).isNone) key

theorem nodup_merged {old new : Config} (left : Keyed.Ordered old) (right : Keyed.Ordered new) :
    (Keyed.keys (mergeEntries old new ++ beyond old new)).Nodup := by
  have former := keys_mergeEntries old new
  rw [Keyed.keys] at former ⊢
  rw [List.map_append, former, List.nodup_append]
  refine ⟨left.nodup, right.nodup.sublist (List.filter_sublist.map _), ?_⟩
  rintro key held key' added rfl
  obtain ⟨e, member, rfl⟩ := List.mem_map.mp added
  have absent := (List.mem_filter.mp member).2
  exact Keyed.get?_eq_none_iff.mp (Option.isNone_iff_eq_none.mp absent) held

theorem merge_mapping {old new : Config} (left : Keyed.Ordered old) (right : Keyed.Ordered new) :
    ∃ c : Config, merge (.mapping old) (.mapping new) = .mapping c ∧ Keyed.Ordered c ∧
      ∀ key, Keyed.get? c key = merge? (Keyed.get? old key) (Keyed.get? new key) := by
  refine ⟨_, rfl, Keyed.ordered_ofList _, ?_⟩
  intro key
  rw [Keyed.get?_ofList (nodup_merged left right), Keyed.get?_append, get?_mergeEntries,
    get?_beyond]
  cases Keyed.get? old key with
  | none => rfl
  | some v => cases Keyed.get? new key <;> rfl

def under? (side : Option Value) (key : String) : Option Value :=
  (side.bind asMapping?).bind (Keyed.get? · key)

theorem merge?_mapping {old : Option Value}
    (left : ∀ entries ∈ old.bind asMapping?, Keyed.Ordered entries) {new : Config}
    (right : Keyed.Ordered new) :
    ∃ c : Config, merge? old (some (.mapping new)) = some (.mapping c) ∧ Keyed.Ordered c ∧
      ∀ key, Keyed.get? c key = merge? (under? old key) (Keyed.get? new key) := by
  cases held : old.bind asMapping? with
  | none =>
    refine ⟨new, merge?_of_plain (.inl held), right, fun key => ?_⟩
    rw [under?, held]
    rfl
  | some entries =>
    obtain ⟨v, rfl, mapping⟩ := Option.bind_eq_some_iff.mp held
    obtain rfl := asMapping?_eq_some_iff.mp mapping
    obtain ⟨c, merged, still, keywise⟩ := merge_mapping (left entries held) right
    exact ⟨c, congrArg some merged, still, keywise⟩

end Value

/-! ### Order of the keys -/

theorem Config.Canonical.of_get? {c : Config} (canonical : c.Canonical) {key : String} {v : Value}
    (found : c.get? key = some v) : v.Ordered :=
  Value.orderedEntries_iff.mp canonical.2 _
    ((Keyed.get?_eq_some_iff canonical.1.nodup).mp found)

namespace Value

variable {old : Option Value}

theorem canonical_of_bind (ordered : ∀ o ∈ old, o.Ordered) :
    ∀ entries ∈ old.bind asMapping?, Config.Canonical entries := by
  intro entries mapping
  obtain ⟨v, held, mapping⟩ := Option.bind_eq_some_iff.mp mapping
  obtain rfl := asMapping?_eq_some_iff.mp mapping
  exact ordered _ held

theorem ordered_under? (ordered : ∀ o ∈ old, o.Ordered) (key : String) :
    ∀ o ∈ under? old key, o.Ordered := by
  intro o found
  obtain ⟨entries, mapping, found⟩ := Option.bind_eq_some_iff.mp found
  exact (canonical_of_bind ordered entries mapping).of_get? found

/-! ### Merging twice, and along a path -/

-- Over the new value: what it is laid on changes from level to level, so it is for any old value.
mutual

theorem merge?_again : ∀ v : Value, v.Ordered → ∀ old : Option Value, (∀ o ∈ old, o.Ordered) →
    merge? (merge? old (some v)) (some v) = merge? old (some v)
  | .scalar s, _, old, _ => by
    have plain : (Value.scalar s).asMapping? = none := rfl
    rw [merge?_of_plain (.inr plain), merge?_of_plain (.inr plain)]
  | .sequence items, _, old, _ => by
    have plain : (Value.sequence items).asMapping? = none := rfl
    rw [merge?_of_plain (.inr plain), merge?_of_plain (.inr plain)]
  | .mapping entries, ordered, old, before => by
    obtain ⟨c, merged, once, keywise⟩ := merge?_mapping
      (fun entries held => (canonical_of_bind before entries held).1) ordered.1
    have next : ∀ entries ∈ (some (Value.mapping c)).bind asMapping?, Keyed.Ordered entries := by
      rintro _ ⟨⟩
      exact once
    obtain ⟨c', merged', twice, keywise'⟩ := merge?_mapping next ordered.1
    rw [merged, merged']
    -- Both are ordered, so it is enough that they hold the same at each key.
    refine congrArg (fun c => some (Value.mapping c)) (twice.ext once fun key => ?_)
    have inner : under? (some (.mapping c)) key = Keyed.get? c key := rfl
    rw [keywise', inner, keywise]
    cases found : Keyed.get? entries key with
    | none => simp
    | some v =>
      have member := (Keyed.get?_eq_some_iff ordered.1.nodup).mp found
      exact merge?_again_entries entries ordered.2 _ member _ (ordered_under? before key)

theorem merge?_again_entries : ∀ entries : List (String × Value), OrderedEntries entries →
    ∀ e ∈ entries, ∀ old : Option Value, (∀ o ∈ old, o.Ordered) →
      merge? (merge? old (some e.2)) (some e.2) = merge? old (some e.2)
  | [], _ => nofun
  | (_, value) :: entries, ordered =>
    List.forall_mem_cons.mpr ⟨merge?_again value ordered.1, merge?_again_entries entries ordered.2⟩

end

/-- What is no mapping is found again after a merge, at the same place. -/
theorem at?_merge? {path : List String} {leaf : Value} (plain : leaf.asMapping? = none) {v : Value}
    (ordered : v.Ordered) (before : ∀ o ∈ old, o.Ordered) (found : v.at? path = some leaf) :
    (merge? old (some v)).bind (at? · path) = some leaf := by
  induction path generalizing v old with
  | nil =>
    obtain rfl := Option.some.inj found
    rw [merge?_of_plain (.inr plain)]
    rfl
  | cons key path ih =>
    obtain ⟨inner, reached, deeper⟩ := Option.bind_eq_some_iff.mp found
    obtain ⟨entries, mapping, held⟩ := Option.bind_eq_some_iff.mp reached
    obtain rfl := asMapping?_eq_some_iff.mp mapping
    obtain ⟨c, merged, -, keywise⟩ := merge?_mapping
      (fun entries inside => (canonical_of_bind before entries inside).1) ordered.1
    have canonical : Config.Canonical entries := ordered
    rw [merged]
    change (Keyed.get? c key).bind (at? · path) = some leaf
    rw [keywise, held]
    exact ih (canonical.of_get? held) (ordered_under? before key) deeper

end Value

namespace Config
open Value

/-! ### Laying values on a configuration -/

theorem get?_overlay_of_ne {key k : String} (other : k ≠ key) (target : Config) (value : Value) :
    (overlay target key value).get? k = target.get? k := by
  cases value with
  | scalar value => simp [overlay, Keyed.get?_insert, other]
  | sequence items => simp [overlay, Keyed.get?_insert, other]
  | mapping incoming =>
    simp only [overlay]
    split
    · simp [Keyed.get?_insert, other]
    · simp [Keyed.get?_insert, other]

theorem get?_overlay_of_plain {target : Config} {key : String}
    (plain : (target.get? key).bind Value.asMapping? = none) (value : Value) :
    (overlay target key value).get? key = some value := by
  cases value with
  | scalar value => simp [overlay, Keyed.get?_insert]
  | sequence items => simp [overlay, Keyed.get?_insert]
  | mapping incoming =>
    simp only [overlay]
    split
    · next existing found =>
      rw [found] at plain
      cases plain
    · simp [Keyed.get?_insert]

theorem get?_overlayAll_of_absent {entries : Config} {key : String}
    (absent : Keyed.get? entries key = none) (target : Config) :
    (overlayAll target entries).get? key = target.get? key := by
  induction entries generalizing target with
  | nil => rfl
  | cons entry rest ih =>
    obtain ⟨k, value⟩ := entry
    simp only [Keyed.get?] at absent
    split at absent
    · cases absent
    · next other =>
      rw [overlayAll, ih absent, get?_overlay_of_ne other]

theorem get?_overlayAll_of_plain {entries : Config} (distinct : (Keyed.keys entries).Nodup)
    {target : Config} {key : String}
    (plain : (target.get? key).bind Value.asMapping? = none) :
    (overlayAll target entries).get? key = (Keyed.get? entries key).or (target.get? key) := by
  induction entries generalizing target with
  | nil => rfl
  | cons entry rest ih =>
    obtain ⟨k, value⟩ := entry
    obtain ⟨new, distinct⟩ := List.nodup_cons.mp distinct
    by_cases same : key = k
    · -- The keys differ, so what follows cannot set this one again.
      subst same
      rw [overlayAll, get?_overlayAll_of_absent (Keyed.get?_eq_none_iff.mpr new),
        get?_overlay_of_plain plain]
      simp [Keyed.get?]
    · have kept := get?_overlay_of_ne same target value
      rw [overlayAll, ih distinct (by rw [kept]; exact plain), kept]
      simp [Keyed.get?, same]

theorem canonical_insert {c : Config} (canonical : c.Canonical) (key : String) {v : Value}
    (ordered : v.Ordered) : Canonical (Keyed.insert c key v) := by
  refine ⟨Keyed.ordered_insert canonical.1 key v, orderedEntries_iff.mpr ?_⟩
  intro e member
  rcases Keyed.mem_insert member with rfl | before
  · exact ordered
  · exact orderedEntries_iff.mp canonical.2 e before

mutual

theorem canonical_overlay : ∀ v : Value, v.Ordered → ∀ {target : Config}, target.Canonical →
    ∀ key, Canonical (overlay target key v)
  | .scalar s, ordered, _, canonical, key => canonical_insert canonical key ordered
  | .sequence items, ordered, _, canonical, key => canonical_insert canonical key ordered
  | .mapping incoming, ordered, target, canonical, key => by
    unfold overlay
    split
    · next existing found =>
      have inner : Canonical existing := canonical.of_get? found
      exact canonical_insert canonical key (canonical_overlayAll incoming ordered.2 inner)
    · exact canonical_insert canonical key ordered

theorem canonical_overlayAll : ∀ entries : List (String × Value), OrderedEntries entries →
    ∀ {target : Config}, target.Canonical → Canonical (overlayAll target entries)
  | [], _, _, canonical => canonical
  | (key, v) :: entries, ordered, _, canonical =>
    canonical_overlayAll entries ordered.2 (canonical_overlay v ordered.1 canonical key)

end

mutual

theorem get?_overlay : ∀ v : Value, v.Ordered → ∀ {target : Config}, target.Canonical →
    ∀ key, (overlay target key v).get? key = merge? (target.get? key) (some v)
  | .scalar s, _, target, _, key => by
    have plain : (Value.scalar s).asMapping? = none := rfl
    rw [merge?_of_plain (.inr plain), overlay, Keyed.get?_insert, if_pos rfl]
  | .sequence items, _, target, _, key => by
    have plain : (Value.sequence items).asMapping? = none := rfl
    rw [merge?_of_plain (.inr plain), overlay, Keyed.get?_insert, if_pos rfl]
  | .mapping incoming, ordered, target, canonical, key => by
    -- Only onto a mapping is there a level below to go into.
    cases held : (target.get? key).bind asMapping? with
    | none => rw [get?_overlay_of_plain held, merge?_of_plain (.inl held)]
    | some existing =>
      obtain ⟨v, found, mapping⟩ := Option.bind_eq_some_iff.mp held
      obtain rfl := asMapping?_eq_some_iff.mp mapping
      have inner : Canonical existing := canonical.of_get? found
      obtain ⟨c, merged, once, keywise⟩ := merge_mapping inner.1 ordered.1
      have laid := canonical_overlayAll incoming ordered.2 inner
      have same : overlayAll existing incoming = c := by
        refine laid.1.ext once fun k => ?_
        rw [keywise, get?_overlayAll incoming ordered.2 ordered.1.nodup inner]
      simp only [overlay, found, Keyed.get?_insert, if_true, merge?, merged, same]

theorem get?_overlayAll : ∀ entries : List (String × Value), OrderedEntries entries →
    (Keyed.keys entries).Nodup → ∀ {target : Config}, target.Canonical → ∀ key,
    (overlayAll target entries).get? key = merge? (target.get? key) (Keyed.get? entries key)
  | [], _, _, target, _, key => (merge?_none _).symm
  | (k, v) :: entries, ordered, distinct, target, canonical, key => by
    obtain ⟨new, distinct⟩ := List.nodup_cons.mp distinct
    have laid := canonical_overlay v ordered.1 canonical k
    rw [overlayAll, get?_overlayAll entries ordered.2 distinct laid, Keyed.get?]
    by_cases same : key = k
    · rw [if_pos same, same, Keyed.get?_eq_none_iff.mpr new, merge?_none,
        get?_overlay v ordered.1 canonical]
    · rw [if_neg same, get?_overlay_of_ne same]

end

variable {target : Config}

/-- The order in which entries are laid on does not matter, as their keys differ. -/
theorem overlayAll_of_perm (canonical : target.Canonical) {entries entries' : List (String × Value)}
    (ordered : ∀ e ∈ entries, e.2.Ordered) (distinct : (Keyed.keys entries).Nodup)
    (perm : entries.Perm entries') : overlayAll target entries = overlayAll target entries' := by
  have ordered' : ∀ e ∈ entries', e.2.Ordered := fun e member => ordered e (perm.mem_iff.mpr member)
  have distinct' := (Keyed.keys_perm perm).nodup_iff.mp distinct
  rw [← orderedEntries_iff] at ordered ordered'
  have laid := canonical_overlayAll entries ordered canonical
  have laid' := canonical_overlayAll entries' ordered' canonical
  refine laid.1.ext laid'.1 fun key => ?_
  rw [get?_overlayAll entries ordered distinct canonical,
    get?_overlayAll entries' ordered' distinct' canonical, Keyed.get?_of_perm distinct perm]

theorem overlay_again (canonical : target.Canonical) (key : String) {v : Value}
    (ordered : v.Ordered) : overlay (overlay target key v) key v = overlay target key v := by
  have laid := canonical_overlay v ordered canonical key
  have again := canonical_overlay v ordered laid key
  refine again.1.ext laid.1 fun k => ?_
  by_cases same : k = key
  · have before : ∀ o ∈ target.get? key, o.Ordered := fun o found => canonical.of_get? found
    rw [same, get?_overlay v ordered laid, get?_overlay v ordered canonical,
      merge?_again v ordered _ before]
  · rw [get?_overlay_of_ne same]

theorem overlay_comm (canonical : target.Canonical) {key key' : String} (different : key' ≠ key)
    {v v' : Value} (ordered : v.Ordered) (ordered' : v'.Ordered) :
    overlay (overlay target key v) key' v' = overlay (overlay target key' v') key v := by
  have each : ∀ e ∈ [(key, v), (key', v')], e.2.Ordered := by simp [ordered, ordered']
  have distinct : (Keyed.keys [(key, v), (key', v')]).Nodup := by
    simpa [Keyed.keys] using different.symm
  exact overlayAll_of_perm canonical each distinct (.swap _ _ _)

theorem at?_overlay (canonical : target.Canonical) (key : String) {v : Value} (ordered : v.Ordered)
    {path : List String} {leaf : Value} (plain : leaf.asMapping? = none)
    (found : v.at? path = some leaf) :
    (Value.mapping (overlay target key v)).at? (key :: path) = some leaf := by
  change ((overlay target key v).get? key).bind (at? · path) = some leaf
  rw [get?_overlay v ordered canonical]
  exact at?_merge? plain ordered (fun o held => canonical.of_get? held) found

theorem overlay_emptyMapping (canonical : target.Canonical) {key : String} {old : Config}
    (found : target.get? key = some (.mapping old)) : overlay target key .emptyMapping = target := by
  have laid : overlay target key .emptyMapping = Keyed.insert target key (.mapping old) := by
    simp only [Value.emptyMapping, overlay, found, overlayAll]
  rw [laid]
  refine (Keyed.ordered_insert canonical.1 key _).ext canonical.1 fun k => ?_
  rw [Keyed.get?_insert]
  split
  · next same => rw [same, found]
  · rfl

/-- A value laid on a configuration is merged with what is at its key and leaves the other keys
alone. A merge joins two mappings key by key and otherwise takes the new value. So laying a value on
again changes nothing, values for different keys may come in either order, what is no mapping is
found at its place, and an empty mapping leaves a mapping as it is. -/
theorem overlay_merges (canonical : target.Canonical) (key : String) {v : Value}
    (ordered : v.Ordered) :
    Canonical (overlay target key v) ∧
    (∀ k, (overlay target key v).get? k =
      if k = key then merge? (target.get? key) (some v) else target.get? k) ∧
    (∀ old new : Config, old.Canonical → new.Canonical → ∃ c : Config,
      merge (.mapping old) (.mapping new) = .mapping c ∧ Keyed.Ordered c ∧
        ∀ k, c.get? k = merge? (old.get? k) (new.get? k)) ∧
    (∀ old new : Value, old.asMapping? = none ∨ new.asMapping? = none → merge old new = new) ∧
    overlay (overlay target key v) key v = overlay target key v ∧
    (∀ key' v', key' ≠ key → v'.Ordered →
      overlay (overlay target key v) key' v' = overlay (overlay target key' v') key v) ∧
    (∀ path leaf, leaf.asMapping? = none → v.at? path = some leaf →
      (Value.mapping (overlay target key v)).at? (key :: path) = some leaf) ∧
    (∀ old, target.get? key = some (.mapping old) →
      overlay target key .emptyMapping = target) := by
  refine ⟨canonical_overlay v ordered canonical key, ?_,
    fun _ _ left right => merge_mapping left.1 right.1, fun _ _ => merge_of_plain,
    overlay_again canonical key ordered,
    fun _ _ different ordered' => overlay_comm canonical different ordered ordered',
    fun _ _ plain found => at?_overlay canonical key ordered plain found,
    fun _ found => overlay_emptyMapping canonical found⟩
  intro k
  split
  · next same => rw [same, get?_overlay v ordered canonical]
  · next other => exact get?_overlay_of_ne other target v

def nestedConfig : Config :=
  [("batching", .mapping
      [("delay", .int 100), ("queue", .mapping [("size", .int 4), ("timeout", .int 10)])]),
    ("limit", .int 8), ("on", .bool true)]

def nestedValue : Value :=
  .mapping [("delay", .sequence []), ("policy", .mapping [("size", .null)]),
    ("queue", .mapping [("size", .null)])]

theorem overlay_merges_nested : nestedConfig.Canonical ∧ nestedValue.Ordered ∧
    overlay nestedConfig "batching" nestedValue =
      [("batching", .mapping
          [("delay", .sequence []), ("policy", .mapping [("size", .null)]),
            ("queue", .mapping [("size", .null), ("timeout", .int 10)])]),
        ("limit", .int 8), ("on", .bool true)] ∧
    overlay (overlay nestedConfig "batching" nestedValue) "batching" nestedValue =
      overlay nestedConfig "batching" nestedValue ∧
    overlay (overlay nestedConfig "batching" nestedValue) "on" nestedValue =
      overlay (overlay nestedConfig "on" nestedValue) "batching" nestedValue ∧
    (Value.mapping (overlay nestedConfig "batching" nestedValue)).at?
      ["batching", "queue", "size"] = some .null ∧
    overlay nestedConfig "batching" .emptyMapping = nestedConfig := by
  have canonical : nestedConfig.Canonical := by decide +kernel
  have ordered : nestedValue.Ordered := by decide +kernel
  obtain ⟨-, -, -, -, again, comm, leaves, empty⟩ := overlay_merges canonical "batching" ordered
  exact ⟨canonical, ordered, by decide +kernel, again, comm "on" _ (by decide) ordered,
    leaves ["queue", "size"] .null rfl rfl, empty _ rfl⟩

end Config
end ServingSweep
