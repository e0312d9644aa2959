import ServingSweep.Proofs.Search.NestedWalk
import ServingSweep.Proofs.Sweep.GridFirsts
import ServingSweep.Proofs.Sweep.Offers

/-!
Whether the configuration of a variant carries the name of the variant. The name is set before the
overrides are laid on, so by `self_named_iff` it does unless an override is for the key of the name.
-/

namespace ServingSweep
open Source

/-! ### Variants under their own name -/

namespace Variant

/-- The configuration carries the name of the variant. -/
def SelfNamed (v : Variant) : Prop := Keyed.get? v.config "name" = some (.text v.name)

instance (v : Variant) : Decidable v.SelfNamed :=
  inferInstanceAs (Decidable (Keyed.get? v.config "name" = some (.text v.name)))

/-- A variant carries its own name unless another one is among its overrides. -/
theorem selfNamed_derive {o : Overrides} (ordered : Keyed.Ordered o) (m : Model) (base : Config)
    (w : World) :
    (derive m o base w).1.SelfNamed ↔
      ∀ value, ("name", value) ∈ o → value = .null ∨ value = .text (derive m o base w).1.name := by
  let name := (w.names.name m.name o).1
  have own : (derive m o base w).1.name = name := name_build _ _ _ _
  have config : Keyed.get? (derive m o base w).1.config "name" =
      (Keyed.get? o.effective "name").or (some (.text name)) := by
    have plain : Keyed.get? (underName name base) "name" = some (.text name) := by
      simp [underName, Keyed.get?_insert]
    have sifted : Keyed.Ordered o.effective := List.Pairwise.filter _ ordered
    change Keyed.get? (build name m o base).config "name" = _
    rw [config_build, Config.get?_overlayAll_of_plain sifted.nodup (by rw [plain]; rfl), plain]
  have effective : ∀ value, Keyed.get? o.effective "name" = some value ↔
      ("name", value) ∈ o ∧ value.isNull = false := by
    intro value
    have sifted : Keyed.Ordered o.effective := List.Pairwise.filter _ ordered
    rw [Keyed.get?_eq_some_iff sifted.nodup, Overrides.mem_effective]
  unfold SelfNamed
  rw [config, own]
  constructor
  · intro named value member
    cases null : value.isNull with
    | true => exact .inl (Value.isNull_iff.mp null)
    | false =>
      rw [(effective value).mpr ⟨member, null⟩] at named
      exact .inr (Option.some.inj named)
  · intro allowed
    cases found : Keyed.get? o.effective "name" with
    | none => rfl
    | some value =>
      obtain ⟨member, effective⟩ := (effective value).mp found
      rcases allowed value member with rfl | rfl
      · cases effective
      · rfl

end Variant

/-! ### Variants of a sweep -/

theorem Source.Deed.mem_given_pulled {α : Type} {result : Except Fault (Option α)}
    {past : List (Deed α)} {a : α} :
    a ∈ Deed.given (.pulled result :: past) ↔ result = .ok (some a) ∨ a ∈ Deed.given past := by
  rcases result with fault | _ | b
  · simp [Deed.given]
  · simp [Deed.given]
  · simp [Deed.given, or_comm, eq_comm]

/-- The overrides that a strategy gives out variants of; those of a remote server are its own. -/
def Strategy.sets : Strategy → List Overrides
  | .baseline => [[]]
  | .remote => []
  | .grid rows | .ladder rows => rows.items

namespace ServerSweep
variable {r : Resources} {m : Model}

theorem derived_of_adaptive {strategy : Strategy} (adaptive : strategy.isAdaptive = true)
    {exit : Bool} {past : List (Deed Variant)} {s : ServerSweep}
    (reached : After (ServerSweep.of r m strategy exit) past s) :
    ∀ v ∈ Deed.given past, ∃ o ∈ strategy.rows.items, s.model = m ∧ s.Derived o v := by
  have sweeps : Sweeps r m (ServerSweep.of r m strategy exit) := ⟨rfl, rfl, adaptive⟩
  obtain ⟨kept, given, traced⟩ := walks.traced sweeps rfl reached
  obtain ⟨ahead, trail, -⟩ := traced.visited.trail
  have among := trail.sublist
  rw [Rows.flatten_lists] at among
  intro v member
  obtain ⟨o, inside, derived⟩ := exists_of_mem_right traced.made member
  exact ⟨o, among.subset inside, kept.model, derived⟩

theorem pull_baseline {s : ServerSweep} (baseline : s.strategy = .baseline) (w : World) :
    (s.pull w).source.model = s.model ∧ (s.pull w).source.strategy = .baseline ∧
      ∀ v, (s.pull w).result = .ok (some v) →
        ∃ base w, v = (Variant.derive s.model [] base w).1 := by
  have advanced : (s.advance w).1.strategy = .baseline := baseline
  unfold pull
  dsimp only
  split
  · exact ⟨rfl, baseline, fun v impossible => nomatch impossible⟩
  · have same : (s.advance w).1.start.current (s.advance w).2 =
        (s.advance w).1.start.offer [] (s.advance w).2 := by
      unfold current
      rw [show (s.advance w).1.start.strategy = .baseline from advanced]
    rw [same]
    rcases offer_cases (s.advance w).1.start [] (s.advance w).2 with
      ⟨fault, later, -, failed⟩ | ⟨base, -, later, later', gave⟩
    · rw [failed]
      exact ⟨rfl, baseline, fun v impossible => nomatch impossible⟩
    · rw [gave]
      refine ⟨rfl, baseline, ?_⟩
      rintro v given
      cases given
      exact ⟨base, later, rfl⟩

theorem derived_of_baseline {exit : Bool} {past : List (Deed Variant)} {s : ServerSweep}
    (reached : After (ServerSweep.of r m .baseline exit) past s) :
    s.model = m ∧ s.strategy = .baseline ∧
      ∀ v ∈ Deed.given past, ∃ base w, v = (Variant.derive m [] base w).1 := by
  induction reached with
  | start => exact ⟨rfl, rfl, fun v member => nomatch member⟩
  | @pull past s _ w ih =>
    obtain ⟨model, strategy, given⟩ := ih
    obtain ⟨model', strategy', derived⟩ := pull_baseline strategy w
    refine ⟨model'.trans model, strategy', ?_⟩
    intro v member
    rcases Deed.mem_given_pulled.mp member with now | before
    · rw [← model]
      exact derived v now
    · exact given v before
  | feed _ batch w ih => exact ih

/-- Every variant of a local sweep comes from overrides of its strategy. -/
theorem derived_of_sets {strategy : Strategy} (own : strategy ≠ .remote) {exit : Bool}
    {past : List (Deed Variant)} {s : ServerSweep}
    (reached : After (ServerSweep.of r m strategy exit) past s) :
    ∀ v ∈ Deed.given past, ∃ o ∈ strategy.sets, ∃ base w, v = (Variant.derive m o base w).1 := by
  intro v member
  have walked (adaptive : strategy.isAdaptive = true) (sets : strategy.sets = strategy.rows.items) :
      ∃ o ∈ strategy.sets, ∃ base w, v = (Variant.derive m o base w).1 := by
    obtain ⟨o, inside, model, base, w, -, same⟩ := derived_of_adaptive adaptive reached v member
    rw [sets]
    rw [model] at same
    exact ⟨o, inside, base, w, same⟩
  cases strategy with
  | baseline => exact ⟨[], List.mem_cons_self, (derived_of_baseline reached).2.2 v member⟩
  | remote => exact absurd rfl own
  | grid rows => exact walked rfl rfl
  | ladder rows => exact walked rfl rfl

end ServerSweep

/-! ### Overrides of a plan -/

/-- What a choice sets is a value of an axis. -/
theorem Grid.entries_of_choices {axes : List Axis} {o : Overrides} (member : o ∈ choices axes) :
    Keyed.Ordered o ∧ ∀ e ∈ o, ∃ axis ∈ axes, axis.key = e.1 ∧ e.2 ∈ axis.values := by
  have chosen : o ∈ (nesting axes).foldl extend [[]] := (List.mem_filter.mp member).1
  refine forall_foldl_extend (P := fun o => Keyed.Ordered o ∧
    ∀ e ∈ o, ∃ axis ∈ axes, axis.key = e.1 ∧ e.2 ∈ axis.values) ?_ ?_ o chosen
  · intro axis inside value picked before kept
    obtain ⟨ordered, entries⟩ := kept
    have among : axis ∈ axes := by
      rcases List.mem_append.mp inside with other | size
      · exact (mem_others.mp other).1
      · exact (mem_sizes.mp size).1
    refine ⟨Keyed.ordered_insert ordered axis.key value, ?_⟩
    intro e entry
    rcases Keyed.mem_insert entry with rfl | entry
    · exact ⟨axis, among, rfl, picked⟩
    · exact entries e entry
  · intro o single
    obtain rfl := List.mem_singleton.mp single
    exact ⟨.nil, fun e entry => nomatch entry⟩

theorem Ladder.overrides_of_rows {counts : Series UInt32} {batchSizes : List UInt32}
    {cpuOnly : Bool} {o : Overrides} (member : o ∈ (rows counts batchSizes cpuOnly).items) :
    Keyed.Ordered o ∧ ∀ value, ("name", value) ∉ o := by
  rw [rows, Rows.items_table] at member
  obtain ⟨count, -, inside⟩ := List.mem_flatMap.mp member
  obtain ⟨batchSize, -, rfl⟩ := List.mem_map.mp inside
  have keys : ["dynamic_batching", "instance_group", Overrides.batchSizeKey].Pairwise (· < ·) := by
    decide
  refine ⟨(List.pairwise_map (f := Prod.fst)).mp keys, ?_⟩
  simp [overrides, Overrides.batchSizeKey]

theorem Strategy.ofPlan_cases {p : Plan} (own : p.launch = .own) (m : Model)
    (baselineOnly : Bool) :
    ofPlan p m baselineOnly = .baseline ∨ ofPlan p m baselineOnly = .grid (Grid.ofAxes m.axes) ∨
      ofPlan p m baselineOnly = .ladder (Ladder.ofPlan p m.cpuOnly) := by
  simp only [ofPlan, own, reduceCtorEq, if_false]
  split
  · exact .inl rfl
  · split
    · exact .inr (.inl rfl)
    · exact .inr (.inr rfl)

/-- The overrides of a plan for its own server, and those of them that are for the name. -/
theorem Strategy.sets_ofPlan {p : Plan} (own : p.launch = .own) {m : Model} {baselineOnly : Bool}
    {o : Overrides} (member : o ∈ (ofPlan p m baselineOnly).sets) :
    Keyed.Ordered o ∧ ∀ value, ("name", value) ∈ o →
      ∃ axis ∈ m.axes, axis.key = "name" ∧ value ∈ axis.values := by
  rcases ofPlan_cases own m baselineOnly with kind | kind | kind
  · rw [kind] at member
    obtain rfl := List.mem_singleton.mp member
    exact ⟨.nil, fun value entry => nomatch entry⟩
  · rw [kind] at member
    have chosen : o ∈ Grid.choices m.axes := by
      rw [← Rows.items_ofBlocks Overrides.rowKey (Grid.choices m.axes)]
      exact member
    obtain ⟨ordered, entries⟩ := Grid.entries_of_choices chosen
    exact ⟨ordered, fun value entry => entries _ entry⟩
  · rw [kind] at member
    obtain ⟨ordered, unnamed⟩ := Ladder.overrides_of_rows member
    exact ⟨ordered, fun value entry => absurd entry (unnamed value)⟩

theorem Strategy.ofPlan_ne_remote {p : Plan} (own : p.launch = .own) (m : Model)
    (baselineOnly : Bool) : ofPlan p m baselineOnly ≠ .remote := by
  rcases ofPlan_cases own m baselineOnly with kind | kind | kind
  · rw [kind]
    exact fun impossible => nomatch impossible
  · rw [kind]
    exact fun impossible => nomatch impossible
  · rw [kind]
    exact fun impossible => nomatch impossible

/-- A variant carries its own name unless an override says otherwise, and so does every variant of a
local sweep. A plan without values for the name gives out variants under their own name only. -/
theorem self_named_iff (r : Resources) (m : Model) :
    (∀ (o : Overrides) (base : Config) (w : World), Keyed.Ordered o →
      let v := (Variant.derive m o base w).1
      v.SelfNamed ↔ ∀ value, ("name", value) ∈ o → value = .null ∨ value = .text v.name) ∧
    (∀ (strategy : Strategy) (exit : Bool), strategy ≠ .remote →
      (∀ o ∈ strategy.sets, Keyed.Ordered o) →
      ∀ past s, After (ServerSweep.of r m strategy exit) past s → ∀ v ∈ Deed.given past,
        ∃ o ∈ strategy.sets, (∃ base w, v = (Variant.derive m o base w).1) ∧
          (v.SelfNamed ↔
            ∀ value, ("name", value) ∈ o → value = .null ∨ value = .text v.name)) ∧
    ∀ (baselineOnly : Bool) (w : World), r.plan.launch = .own →
      (∀ axis ∈ m.axes, axis.key = "name" → ∀ value ∈ axis.values, value = .null) →
      ∀ past s, After (ServerSweep.ofPlan r m baselineOnly w).1 past s →
        ∀ v ∈ Deed.given past, v.SelfNamed := by
  refine ⟨fun o base w ordered => Variant.selfNamed_derive ordered m base w, ?_, ?_⟩
  · intro strategy exit own ordered past s reached v member
    obtain ⟨o, inside, base, w, rfl⟩ := ServerSweep.derived_of_sets own reached v member
    exact ⟨o, inside, ⟨base, w, rfl⟩, Variant.selfNamed_derive (ordered o inside) m base w⟩
  · intro baselineOnly w own unnamed past s reached v member
    have sweep := Strategy.ofPlan_ne_remote own m baselineOnly
    obtain ⟨o, inside, base, w, rfl⟩ := ServerSweep.derived_of_sets sweep reached v member
    obtain ⟨ordered, entries⟩ := Strategy.sets_ofPlan own inside
    rw [Variant.selfNamed_derive ordered]
    intro value entry
    obtain ⟨axis, among, key, picked⟩ := entries value entry
    exact .inl (unnamed axis among key value picked)

def namedAxis : Model := { name := "m", axes := [⟨"name", [.text "x"]⟩] }

def namedPlan : Resources :=
  { plan := { models := [namedAxis] }, repository := Repository.ofConfigs [("m", [])] }

def firstNamed : Pulled ServerSweep Variant :=
  (ServerSweep.ofPlan namedPlan namedAxis false {}).1.pull {}

theorem after_firstNamed :
    After (ServerSweep.ofPlan namedPlan namedAxis false {}).1 [.pulled firstNamed.result]
      firstNamed.source :=
  After.start.pull {}

def renamed : Variant := Variant.build "m_config_0" namedAxis [("name", .text "x")] []

theorem self_named_iff_axis :
    Keyed.Ordered [("name", Value.text "x")] ∧
    ¬ (Variant.derive namedAxis [("name", .text "x")] [] {}).1.SelfNamed ∧
    After (ServerSweep.ofPlan namedPlan namedAxis false {}).1 [.pulled firstNamed.result]
      firstNamed.source ∧
    renamed ∈ Deed.given [.pulled firstNamed.result] ∧
    (∃ o ∈ (Strategy.ofPlan namedPlan.plan namedAxis false).sets,
      ¬ ∀ value, ("name", value) ∈ o → value = .null ∨ value = .text "m_config_0") ∧
    let ladder := (ServerSweep.ofPlan Tour.bareModel Tour.twoLoads false {}).1
    After ladder [.pulled (ladder.pull {}).result] (ladder.pull {}).source ∧
    (Deed.given [.pulled (ladder.pull {}).result]).length = 1 ∧
    ∀ v ∈ Deed.given [.pulled (ladder.pull {}).result], v.SelfNamed := by
  have ordered : Keyed.Ordered [("name", Value.text "x")] := List.pairwise_singleton _ _
  have given : firstNamed.result = .ok (some renamed) := by decide +kernel
  have member : renamed ∈ Deed.given [.pulled firstNamed.result] := by
    rw [given]
    exact List.mem_cons_self
  have misnamed : ¬ renamed.SelfNamed := by decide +kernel
  obtain ⟨derive, sweep, -⟩ := self_named_iff namedPlan namedAxis
  have own : ¬ ∀ value, ("name", value) ∈ [("name", Value.text "x")] →
      value = .null ∨ value = .text "m_config_0" := by
    intro all
    exact absurd (all _ List.mem_cons_self) (by decide)
  have swept : ∀ o ∈ (Strategy.ofPlan namedPlan.plan namedAxis false).sets, Keyed.Ordered o :=
    fun o inside => (Strategy.sets_ofPlan rfl inside).1
  obtain ⟨o, inside, -, named⟩ := sweep _ _ (Strategy.ofPlan_ne_remote rfl namedAxis false) swept
    _ _ after_firstNamed renamed member
  let ladder := (ServerSweep.ofPlan Tour.bareModel Tour.twoLoads false {}).1
  have reached : After ladder [.pulled (ladder.pull {}).result] (ladder.pull {}).source :=
    After.start.pull {}
  have unnamed : ∀ axis ∈ Tour.twoLoads.axes, axis.key = "name" →
      ∀ value ∈ axis.values, value = .null := fun axis none => nomatch none
  have selfNamed :=
    (self_named_iff Tour.bareModel Tour.twoLoads).2.2 false {} rfl unnamed _ _ reached
  exact ⟨ordered, fun same => own ((derive _ [] {} ordered).mp same), after_firstNamed, member,
    ⟨o, inside, fun all => misnamed (named.mpr all)⟩, reached, by decide +kernel, selfNamed⟩

/-- A plan without a fault may have an axis for the name, which then renames the configuration. -/
theorem not_always_self_named :
    ¬ ∀ (r : Resources) (m : Model) (past : List (Deed Variant)) (s : ServerSweep),
      r.plan.fault? = none → m ∈ r.plan.models →
      After (ServerSweep.ofPlan r m false {}).1 past s → ∀ v ∈ Deed.given past, v.SelfNamed := by
  intro always
  have valid : namedPlan.plan.fault? = none := by decide +kernel
  have all := always namedPlan namedAxis _ _ valid List.mem_cons_self after_firstNamed
  exact absurd all (by decide +kernel)

end ServingSweep
