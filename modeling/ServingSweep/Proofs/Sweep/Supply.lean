import ServingSweep.Proofs.Bounds
import ServingSweep.Proofs.Search.Origins
import ServingSweep.Proofs.Sweep.Failures
import ServingSweep.Proofs.Sweep.GridFirsts

/-!
Server sweeps that find what they ask for: none of their pulls fails, and the first one gives out a
variant. Of a plan without a fault every sweep has something to give out.
-/

namespace ServingSweep
open Source

/-! ### What is supplied -/

structure Client.Succeeds (c : Client) (model : String) : Prop where
  load : ∀ before, c.load before model = .ok ()
  unload : ∀ before, c.unload before model = .ok ()
  config : ∀ before retries, ∃ config, c.config before model retries = .ok config

theorem Client.fetch_of_succeeds {c : Client} {model : String} (succeeds : c.Succeeds model)
    (retries : UInt32) (reload : Bool) (w : World) :
    ∃ config later, c.fetch model retries reload w = (.ok config, later) := by
  have asked (w : World) : ∃ config later, c.asking model retries w = (.ok config, later) := by
    obtain ⟨config, answer⟩ := succeeds.config w.calls retries
    exact ⟨config, (c.noted w (.config model retries)).say (.configReported model), by
      simp only [asking, answer]⟩
  unfold fetch
  split
  · obtain ⟨config, later, answer⟩ := asked (c.noted w (.load model))
    exact ⟨config, c.noted later (.unload model), by
      simp only [fetchLoaded, loading, succeeds.load, answer, unloading, succeeds.unload, settle]⟩
  · exact asked w

theorem Resources.resolves_of_found {r : Resources} {m : Model} {base : Config}
    (found : r.repository r.plan.repository m.name = .ok base) : r.Resolves m :=
  fun w => ⟨base, w, by simp only [Resources.base, found]⟩

/-- What a search of a model draws on: its base configuration, or for a server that is managed
elsewhere a client whose calls succeed. -/
structure Resources.Supplies (r : Resources) (m : Model) : Prop where
  own : r.plan.launch = .own → r.Resolves m
  remote : r.plan.launch = .remote → ∃ c, r.client = some c ∧ c.Succeeds m.name

namespace ServerSweep

structure Supplied (s : ServerSweep) : Prop where
  base : s.strategy ≠ .remote → s.resources.Resolves s.model
  remote : s.strategy = .remote → ∀ w, ∃ config later,
    s.resources.askServer s.model.name (!s.resources.plan.keepLoaded) w = (.ok config, later)

variable {s : ServerSweep}

theorem offer_of_supplied (resolves : s.resources.Resolves s.model) (o : Overrides) (w : World) :
    ∃ v, (s.offer o w).result = .ok (some v) := by
  rcases offer_cases s o w with ⟨fault, later, missing, -⟩ | ⟨base, -, later, later', gave⟩
  · obtain ⟨base, later, found⟩ := resolves w
    rw [found] at missing
    cases missing
  · rw [gave]
    exact ⟨_, rfl⟩

/-- Only a walk that is over has no variant to give out. -/
theorem current_of_supplied (supplied : s.Supplied) (w : World) :
    (∃ v, (s.current w).result = .ok (some v)) ∨
      s.strategy.isAdaptive = true ∧ s.course.current? = none ∧
        (s.current w).result = .ok none := by
  cases kind : s.strategy with
  | baseline =>
    have resolves := supplied.base (by rw [kind]; exact fun h => nomatch h)
    have same : s.current w = s.offer [] w := by simp only [current, kind]
    rw [same]
    exact .inl (offer_of_supplied resolves [] w)
  | remote =>
    obtain ⟨config, later, answer⟩ := supplied.remote kind w
    have same : s.current w = s.offerRemote w := by simp only [current, kind]
    rw [same]
    rcases s.offerRemote_asked w with ⟨fault, later', failed, -⟩ | ⟨config', later', -, gave⟩
    · cases answer.symm.trans failed
    · rw [gave]
      exact .inl ⟨_, rfl⟩
  | grid rows | ladder rows =>
    have resolves := supplied.base (by rw [kind]; exact fun h => nomatch h)
    have adaptive : s.strategy.isAdaptive = true := by rw [kind]; rfl
    rcases current_adaptive adaptive w with ⟨finished, same⟩ | ⟨o, -, same⟩
    · rw [same]
      exact .inr ⟨rfl, finished, rfl⟩
    · rw [same]
      exact .inl (offer_of_supplied resolves o w)

theorem supplied_of_continues {t : ServerSweep} (supplied : s.Supplied) (later : s.Continues t) :
    t.Supplied := by
  refine ⟨?_, ?_⟩
  · rw [later.strategy, later.resources, later.model]
    exact supplied.base
  · rw [later.strategy, later.resources, later.model]
    exact supplied.remote

theorem neverFails_supplied (supplied : s.Supplied) : NeverFails s := by
  refine neverFails_of_invariant Supplied supplied
    (fun s w supplied => supplied_of_continues supplied (continues_pull s w))
    (fun s batch w supplied => supplied_of_continues supplied ⟨rfl, rfl, rfl⟩) ?_
  intro s w fault supplied
  change (s.pull w).result ≠ .error fault
  unfold pull
  dsimp only
  split
  · exact fun impossible => nomatch impossible
  · have still : (s.advance w).1.start.Supplied := supplied_of_continues supplied ⟨rfl, rfl, rfl⟩
    rcases current_of_supplied still (s.advance w).2 with ⟨v, gave⟩ | ⟨-, -, ended⟩
    · rw [gave]
      exact fun impossible => nomatch impossible
    · rw [ended]
      exact fun impossible => nomatch impossible

theorem opens_supplied {r : Resources} {m : Model} {strategy : Strategy} {exit : Bool}
    (supplied : (of r m strategy exit).Supplied)
    (walked : strategy.isAdaptive = true → strategy.rows ≠ .nil) :
    Opens (of r m strategy exit) := by
  intro w
  have still : (of r m strategy exit).start.Supplied :=
    supplied_of_continues supplied ⟨rfl, rfl, rfl⟩
  have pulled : (of r m strategy exit).pull w = (of r m strategy exit).start.current w := rfl
  change ∃ v, ((of r m strategy exit).pull w).result = .ok (some v)
  rw [pulled]
  rcases current_of_supplied still w with gave | ⟨adaptive, finished, -⟩
  · exact gave
  · exact absurd (Rows.eq_nil_of_current? finished) (walked adaptive)

end ServerSweep

/-! ### Plans without a fault -/

namespace Plan
variable {p : Plan} {m : Model}

structure Sound (p : Plan) : Prop where
  concurrency : p.concurrency.fault? "concurrency" = none
  batchSize : p.batchSize.fault? "model batch size" = none
  instances : p.instances.fault? "instance count" = none
  models : ∀ m ∈ p.models, m.fault? = none

theorem sound_of_fault? (valid : p.fault? = none) : p.Sound := by
  simp only [fault?, Option.or_eq_none_iff, List.findSome?_eq_none_iff] at valid
  obtain ⟨concurrency, batchSize, instances, -, models⟩ := valid
  exact ⟨concurrency, batchSize, instances, models⟩

end Plan

theorem Model.pins_of_fault? {m : Model} (sound : m.fault? = none) :
    0 ∉ m.pins.concurrencies ∧ 0 ∉ m.pins.batchSizes := by
  unfold fault? at sound
  split at sound
  · cases sound
  · split at sound
    · cases sound
    · next positive =>
      simpa [not_or] using positive

theorem Bounds.doublings_ne_nil {b : Bounds} {name : String} (sound : b.fault? name = none) :
    b.doublings ≠ [] := by
  obtain ⟨positive, ordered⟩ := of_fault?_eq_none sound
  rw [UInt32.le_iff_toNat_le] at ordered
  rw [Ne, doublings_eq_nil_iff]
  omega

theorem Model.filled_of_hasGrid {m : Model} (grid : m.hasGrid = true) :
    ∃ axis ∈ m.axes, axis.values ≠ [] := by
  obtain ⟨axis, member, values⟩ := List.any_eq_true.mp grid
  exact ⟨axis, member, by simpa using values⟩

theorem Grid.ofAxes_ne_nil {axes : List Axis} (filled : ∃ axis ∈ axes, axis.values ≠ []) :
    ofAxes axes ≠ .nil := by
  have used : ∀ axis ∈ others axes, ∃ value, value ∈ axis.values :=
    fun axis inside => List.exists_mem_of_ne_nil _ (mem_others.mp inside).2.2
  obtain ⟨values, picks⟩ := exists_forall₂ used
  obtain ⟨row, member, -⟩ := exists_row_firstOf filled picks
  intro empty
  rw [empty] at member
  cases member

theorem Ladder.ofPlan_ne_nil {p : Plan} (sound : p.Sound) (cpuOnly : Bool) :
    ofPlan p cpuOnly ≠ .nil := by
  obtain ⟨-, ordered⟩ := Bounds.of_fault?_eq_none sound.instances
  have count : p.instances.least ∈ p.instances.all.toList :=
    Bounds.mem_all.mpr ⟨UInt32.le_refl _, ordered⟩
  obtain ⟨size, member⟩ := List.exists_mem_of_ne_nil _ (Bounds.doublings_ne_nil sound.batchSize)
  intro empty
  have items := Rows.items_table (overrides cpuOnly) p.instances.all p.batchSize.doublings
  have inside : overrides cpuOnly p.instances.least size ∈ (ofPlan p cpuOnly).items := by
    rw [ofPlan, rows, items]
    exact List.mem_flatMap.mpr ⟨_, count, List.mem_map.mpr ⟨size, member, rfl⟩⟩
  rw [empty] at inside
  cases inside

/-- A plan without a fault has something to walk, where it calls for a walk. -/
theorem Strategy.rows_ofPlan_ne_nil {p : Plan} (sound : p.Sound) (m : Model) (baselineOnly : Bool)
    (adaptive : (ofPlan p m baselineOnly).isAdaptive = true) :
    (ofPlan p m baselineOnly).rows ≠ .nil := by
  revert adaptive
  unfold ofPlan
  split
  · exact fun impossible => nomatch impossible
  · split
    · exact fun impossible => nomatch impossible
    · split
      · next grid => exact fun _ => Grid.ofAxes_ne_nil (Model.filled_of_hasGrid grid)
      · exact fun _ => Ladder.ofPlan_ne_nil sound m.cpuOnly

theorem Strategy.ofPlan_eq_remote {p : Plan} {m : Model} {baselineOnly : Bool} :
    ofPlan p m baselineOnly = .remote ↔ p.launch = .remote := by
  cases launch : p.launch with
  | own => exact iff_of_false (ofPlan_ne_remote launch m baselineOnly) (fun h => nomatch h)
  | remote => simp [ofPlan, launch]

theorem ServerSweep.supplied_of {r : Resources} {m : Model} (supplies : r.Supplies m)
    (baselineOnly exit : Bool) :
    (of r m (Strategy.ofPlan r.plan m baselineOnly) exit).Supplied := by
  refine ⟨?_, ?_⟩
  · intro own w
    have launch : r.plan.launch = .own := by
      cases launch : r.plan.launch with
      | own => rfl
      | remote => exact absurd (Strategy.ofPlan_eq_remote.mpr launch) own
    exact supplies.own launch w
  · intro remote w
    obtain ⟨c, client, succeeds⟩ := supplies.remote (Strategy.ofPlan_eq_remote.mp remote)
    obtain ⟨config, later, answer⟩ :=
      Client.fetch_of_succeeds succeeds r.plan.retries (!r.plan.keepLoaded) w
    refine ⟨config, later, ?_⟩
    simp only [of, Resources.askServer, client, answer]
    rfl

end ServingSweep
