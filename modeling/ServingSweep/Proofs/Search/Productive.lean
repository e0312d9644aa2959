import ServingSweep.Proofs.Search.Composition
import ServingSweep.Proofs.Sweep.Supply

/-!
Searches of a plan without a fault. Where what they draw on is supplied they try something and do
not fail, and every trial stays within what the plan and the model allow (`productive_search`).
-/

namespace ServingSweep
open Source

theorem Source.Plays.result_of_nil {σ α : Type} [Source σ α] {p : Pulled σ α} {last : σ}
    {later : World} (play : Plays p [] last later) : p.result = .ok none := by
  cases play
  rfl

def Bounds.Doubles (b : Bounds) (n : UInt32) : Prop :=
  b.Covers n ∧ ∃ k, n.toNat = b.least.toNat * 2 ^ k

theorem Bounds.doubles_of_mem {b : Bounds} {name : String} (sound : b.fault? name = none)
    {n : UInt32} (member : n ∈ b.doublings) : b.Doubles n := by
  obtain ⟨positive, -⟩ := of_fault?_eq_none sound
  obtain ⟨k, same, most⟩ := mem_doublings.mp member
  rw [Nat.max_eq_left positive] at same
  have grows : b.least.toNat ≤ b.least.toNat * 2 ^ k :=
    Nat.le_mul_of_pos_right _ (Nat.two_pow_pos k)
  exact ⟨⟨UInt32.le_iff_toNat_le.mpr (by omega), most⟩, k, same⟩

/-! ### Loads -/

/-- Both numbers of a load are at least 1 and among those pinned for the model; what is not pinned
is a doubling of the concurrency, and a batch size of 1. -/
structure Load.Fits (p : Plan) (m : Model) (l : Load) : Prop where
  positive : 1 ≤ l.batchSize ∧ 1 ≤ l.concurrency
  concurrency : if m.pins.concurrencies = [] then p.concurrency.Doubles l.concurrency
    else l.concurrency ∈ m.pins.concurrencies
  batchSize : if m.pins.batchSizes = [] then l.batchSize = 1
    else l.batchSize ∈ m.pins.batchSizes

namespace LoadSweep
variable {p : Plan} {m : Model}

theorem mem_given {variant : String} {past : List (Deed Load)} {sweep : LoadSweep}
    (reached : After (ofPlan p m variant) past sweep) {l : Load} (member : l ∈ Deed.given past) :
    l.variant = variant ∧ l.batchSize ∈ batchSizes m ∧ l.concurrency ∈ concurrencies p m := by
  have thorough := LoadSweep.thorough variant (batchSizes m) (concurrencies p m)
    (p.loadEarlyExit m) p.objective m.flags
  obtain ⟨given, -, made, among, -, -⟩ := thorough.trail past sweep reached
  obtain ⟨l', inside, same⟩ := exists_of_mem_right made member
  obtain rfl : l' = l := same
  obtain ⟨row, member, inside⟩ := List.mem_flatten.mp (among.subset inside)
  obtain ⟨size, sized, rfl⟩ := List.mem_map.mp (List.mem_filter.mp member).1
  obtain ⟨concurrency, counted, rfl⟩ := List.mem_map.mp inside
  exact ⟨rfl, sized, counted⟩

theorem one_le_of_not_mem {ns : List UInt32} (positive : 0 ∉ ns) {n : UInt32} (member : n ∈ ns) :
    1 ≤ n := by
  have other : n ≠ 0 := by
    rintro rfl
    exact positive member
  rw [UInt32.le_iff_toNat_le]
  have nonzero : n.toNat ≠ 0 := fun zero => other (UInt32.toNat_inj.mp zero)
  exact Nat.one_le_iff_ne_zero.mpr nonzero

theorem fits_of_mem (sound : p.Sound) (listed : m ∈ p.models) {l : Load}
    (sized : l.batchSize ∈ batchSizes m) (counted : l.concurrency ∈ concurrencies p m) :
    l.Fits p m := by
  obtain ⟨counts, sizes⟩ := Model.pins_of_fault? (sound.models m listed)
  unfold batchSizes at sized
  unfold concurrencies at counted
  have size : 1 ≤ l.batchSize ∧ if m.pins.batchSizes = [] then l.batchSize = 1
      else l.batchSize ∈ m.pins.batchSizes := by
    cases pinned : m.pins.batchSizes with
    | nil =>
      rw [pinned] at sized
      have one : l.batchSize = 1 := List.mem_singleton.mp sized
      rw [one]
      exact ⟨UInt32.le_refl 1, rfl⟩
    | cons first rest =>
      rw [pinned] at sized sizes
      exact ⟨one_le_of_not_mem sizes sized, sized⟩
  have concurrency : 1 ≤ l.concurrency ∧ if m.pins.concurrencies = []
      then p.concurrency.Doubles l.concurrency else l.concurrency ∈ m.pins.concurrencies := by
    cases pinned : m.pins.concurrencies with
    | nil =>
      rw [pinned] at counted
      have doubles := Bounds.doubles_of_mem sound.concurrency counted
      have least : (1 : UInt32) ≤ p.concurrency.least :=
        UInt32.le_iff_toNat_le.mpr (Bounds.of_fault?_eq_none sound.concurrency).1
      exact ⟨UInt32.le_trans least doubles.1.1, doubles⟩
    | cons first rest =>
      rw [pinned] at counted counts
      exact ⟨one_le_of_not_mem counts counted, counted⟩
  exact ⟨⟨size.1, concurrency.1⟩, concurrency.2, size.2⟩

theorem opens (sound : p.Sound) (m : Model) (variant : String) : Opens (ofPlan p m variant) := by
  have size : batchSizes m ≠ [] := by
    unfold batchSizes
    split
    · exact List.cons_ne_nil _ _
    · next pinned => simpa using pinned
  have count : concurrencies p m ≠ [] := by
    unfold concurrencies
    split
    · exact Bounds.doublings_ne_nil sound.concurrency
    · next pinned => simpa using pinned
  obtain ⟨first, sizes, size⟩ := List.exists_cons_of_ne_nil size
  obtain ⟨least, counts, count⟩ := List.exists_cons_of_ne_nil count
  intro w
  refine ⟨⟨variant, first, least, m.flags⟩, ?_⟩
  change ((of variant (batchSizes m) (concurrencies p m) _ _ _).pull w).result = _
  rw [size, count]
  rfl

end LoadSweep

/-! ### Variants of the ladder -/

structure Ladder.Rung (p : Plan) (m : Model) (v : Variant) (count size : UInt32) : Prop where
  derived : ∃ base w, v = (Variant.derive m (overrides m.cpuOnly count size) base w).1
  instances : p.instances.Covers count
  batchSize : p.batchSize.Doubles size
  sets : Keyed.get? v.config Overrides.batchSizeKey = some (.word size) ∧
    Keyed.get? v.config "instance_group" = some (.sequence
      [.mapping [("count", .word count), ("kind", .text (kind m.cpuOnly))]])

theorem Ladder.get?_build (name : String) (m : Model) (count size : UInt32) (base : Config) :
    let config := (Variant.build name m (overrides m.cpuOnly count size) base).config
    Keyed.get? config Overrides.batchSizeKey = some (.word size) ∧
      Keyed.get? config "instance_group" = some (.sequence
        [.mapping [("count", .word count), ("kind", .text (kind m.cpuOnly))]]) := by
  have effective : (overrides m.cpuOnly count size).effective = overrides m.cpuOnly count size :=
    rfl
  intro config
  have laid : config = Config.overlay (Config.overlay (Config.overlay
      (Keyed.insert base "name" (.text name)) "dynamic_batching" .emptyMapping) "instance_group"
      (.sequence [.mapping [("count", .word count), ("kind", .text (kind m.cpuOnly))]]))
      Overrides.batchSizeKey (.word size) := by
    rw [show config = _ from Variant.config_build _ _ _ _, effective]
    rfl
  rw [laid]
  refine ⟨by simp [Config.overlay, Value.word, Value.int, Keyed.get?_insert], ?_⟩
  rw [Config.get?_overlay_of_ne (by decide)]
  simp [Config.overlay, Keyed.get?_insert]

theorem Ladder.rung_of_mem {p : Plan} (sound : p.Sound) {m : Model} {o : Overrides}
    (member : o ∈ (ofPlan p m.cpuOnly).items) {v : Variant} {base : Config} {w : World}
    (derived : v = (Variant.derive m o base w).1) : ∃ count size, Rung p m v count size := by
  rw [ofPlan, rows, Rows.items_table] at member
  obtain ⟨count, counted, inside⟩ := List.mem_flatMap.mp member
  obtain ⟨size, sized, rfl⟩ := List.mem_map.mp inside
  refine ⟨count, size, ⟨base, w, derived⟩, Bounds.mem_all.mp counted,
    Bounds.doubles_of_mem sound.batchSize sized, ?_⟩
  rw [derived]
  exact get?_build _ m count size base

/-! ### Searches -/

namespace Search

theorem productive_ofPlan {r : Resources} {m : Model} (sound : r.plan.Sound)
    (supplies : r.Supplies m) {baselineOnly : Bool} {run : Uuid} {w : World}
    {past : List (Deed Probe)} {s : ModelSearch}
    (reached : After (ofPlan r m baselineOnly run w).1 past s) :
    let start := (ofPlan r m baselineOnly run w).1
    (∃ calls, Sourced start.server start.makeLoad past s calls) ∧
      Productive start.server past s := by
  intro start
  have supplied := ServerSweep.supplied_of supplies baselineOnly (r.plan.serverEarlyExit m)
  have opens := ServerSweep.opens_supplied supplied
    (Strategy.rows_ofPlan_ne_nil sound m baselineOnly)
  have soundLoads : ∀ opened variant, NeverFails (start.makeLoad opened variant) :=
    fun _ variant => Course.neverFails (LoadSweep.ofPlan r.plan m variant.name)
  have openLoads : ∀ opened variant, Opens (start.makeLoad opened variant) :=
    fun _ variant => LoadSweep.opens sound m variant.name
  have origin : Sourced start.server start.makeLoad [] start [] :=
    ⟨rfl, .start, fun _ _ impossible => (nomatch impossible),
      fun _ impossible => (nomatch impossible)⟩
  have fresh : Productive start.server [] start :=
    ⟨fun _ impossible => (nomatch impossible), .inr ⟨rfl, rfl, rfl⟩⟩
  have invariant := productive (ServerSweep.neverFails_supplied supplied) opens soundLoads openLoads
  exact invariant.holds ⟨⟨[], origin⟩, fresh⟩ reached

theorem ne_nil_of_plays {r : Resources} {m : Model} (sound : r.plan.Sound)
    (supplies : r.Supplies m) {baselineOnly : Bool} {run : Uuid} {w later : World}
    {t : List (Probe × Batch)} {last : ModelSearch}
    (play : Plays (Source.pull (ofPlan r m baselineOnly run w).1 (ofPlan r m baselineOnly run w).2)
      t last later) : t ≠ [] := by
  rintro rfl
  let start := ofPlan r m baselineOnly run w
  have reached : After start.1 [.pulled (Source.pull start.1 start.2).result]
      (Source.pull start.1 start.2).source := After.start.pull start.2
  have begun := (productive_ofPlan sound supplies reached).2.begun
  rw [play.result_of_nil] at begun
  rcases begun with given | ⟨unpulled, -⟩
  · exact given rfl
  · cases unpulled

/-- The search of a valid plan tries something under every driver and ends, and under calls in any
order no pull fails. Every trial is within the plan: so are its concurrency and its batch size, and
where the ladder is climbed its instances and the batch size of the server. -/
theorem productive_search (r : Resources) (m : Model) (baselineOnly : Bool) (run : Uuid) (w : World)
    (valid : r.plan.fault? = none) (listed : m ∈ r.plan.models) (supplies : r.Supplies m)
    (pass : baselineOnly ∈ r.plan.passes) :
    let start := Search.ofPlan r m baselineOnly run w
    (∀ d : Driver Probe, ∃ t last later, Plays (Source.pull start.1 start.2) t last later ∧
      d.Answers [] t ∧ t ≠ []) ∧
    ∀ past s, After start.1 past s →
      (∀ fault, .pulled (.error fault) ∉ past) ∧
      (Deed.pulls past ≠ 0 → Deed.given past ≠ []) ∧
      ∀ probe ∈ Deed.given past, probe.load.variant = probe.variant.name ∧
        probe.load.Fits r.plan m ∧
        (r.plan.launch = .own → baselineOnly = false → m.hasGrid = false →
          ∃ count size, Ladder.Rung r.plan m probe.variant count size) := by
  intro start
  have sound := Plan.sound_of_fault? valid
  have supplied := ServerSweep.supplied_of supplies baselineOnly (r.plan.serverEarlyExit m)
  refine ⟨?_, ?_⟩
  · intro d
    obtain ⟨parts, last, later, -, play, answers⟩ := composes start.1.server start.1.makeLoad m.name
      run d start.2 (ServerSweep.neverFails_supplied supplied)
    exact ⟨_, last, later, play, answers, ne_nil_of_plays sound supplies play⟩
  · intro past s reached
    obtain ⟨⟨calls, origin⟩, fine, begun⟩ := productive_ofPlan sound supplies reached
    refine ⟨fine, fun pulled => begun.resolve_right (fun fresh => pulled fresh.1), ?_⟩
    intro probe member
    obtain ⟨among, before, sweep, ⟨opened, loads⟩, given⟩ := origin.given probe member
    obtain ⟨own, sized, counted⟩ := LoadSweep.mem_given loads given
    refine ⟨own, LoadSweep.fits_of_mem sound listed sized counted, ?_⟩
    rintro launch rfl gridless
    have swept : r.plan.baselineOnly = false := by
      cases swept : r.plan.baselineOnly with
      | false => rfl
      | true => simp [Plan.passes, swept] at pass
    have ladder : Strategy.ofPlan r.plan m false = .ladder (Ladder.ofPlan r.plan m.cpuOnly) := by
      simp [Strategy.ofPlan, launch, swept, gridless]
    have own := Strategy.ofPlan_ne_remote launch m false
    obtain ⟨o, inside, base, w, derived⟩ :=
      ServerSweep.derived_of_sets own origin.server probe.variant among
    rw [ladder] at inside
    exact Ladder.rung_of_mem sound inside derived

def plain : Model := { name := "m" }

def narrow : Resources where
  plan := { concurrency := ⟨3, 7⟩, batchSize := ⟨2, 5⟩, instances := ⟨1, 2⟩, models := [plain] }
  repository := Repository.ofConfigs [("m", [("backend", .text "onnx")])]

theorem productive_search_narrow :
    narrow.plan.fault? = none ∧ plain ∈ narrow.plan.models ∧ narrow.Supplies plain ∧
    false ∈ narrow.plan.passes ∧
    let start := Search.ofPlan narrow plain false ⟨0⟩ {}
    let first := Source.pull start.1 start.2
    let second := Source.pull first.source first.world
    let past : List (Deed Probe) := [.pulled second.result, .pulled first.result]
    (Deed.given past).map (fun probe => (probe.variant.name, probe.load.concurrency)) =
      [("m_config_0", 3), ("m_config_1", 3)] ∧
    Deed.given past ≠ [] ∧
    ∀ probe ∈ Deed.given past, probe.load.Fits narrow.plan plain ∧
      ∃ count size, Ladder.Rung narrow.plan plain probe.variant count size := by
  have valid : narrow.plan.fault? = none := by decide +kernel
  have listed : plain ∈ narrow.plan.models := List.mem_cons_self
  have found : narrow.repository narrow.plan.repository "m" = .ok [("backend", .text "onnx")] := by
    decide +kernel
  have supplies : narrow.Supplies plain :=
    ⟨fun _ => Resources.resolves_of_found found, fun remote => nomatch remote⟩
  have pass : false ∈ narrow.plan.passes := by decide
  refine ⟨valid, listed, supplies, pass, ?_⟩
  intro start first second past
  have reached : After start.1 past second.source := (After.start.pull start.2).pull first.world
  obtain ⟨-, begun, fits⟩ :=
    (productive_search narrow plain false ⟨0⟩ {} valid listed supplies pass).2 past _ reached
  refine ⟨by decide +kernel, begun (by decide), ?_⟩
  intro probe member
  obtain ⟨-, load, rung⟩ := fits probe member
  exact ⟨load, rung rfl rfl rfl⟩

end Search
end ServingSweep
