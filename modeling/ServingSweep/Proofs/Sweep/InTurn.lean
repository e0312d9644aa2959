import Mathlib.Data.List.FinRange
import Mathlib.Data.List.ProdSigma
import ServingSweep.Proofs.Sweep.Failures
import ServingSweep.Proofs.Sweep.Itinerary

/-!
Load sweeps and server sweeps whose results come in turn, each against its itinerary: the table of
loads by their places, so that equal loads are told apart, and the blocks of a grid or the steps of
a ladder.
-/

namespace ServingSweep
open Source
open scoped List

namespace LoadSweep
variable {batchSizes concurrencies : List UInt32}

/-- A place in the table of a load sweep: a client batch size and a concurrency, by position. -/
abbrev Place (batchSizes concurrencies : List UInt32) : Type :=
  Fin batchSizes.length × Fin concurrencies.length

def places (batchSizes concurrencies : List UInt32) : List (List (Place batchSizes concurrencies)) :=
  (List.finRange batchSizes.length).map fun size =>
    (List.finRange concurrencies.length).map fun concurrency => (size, concurrency)

def Place.load (variant : String) (flags : Keyed String) (place : Place batchSizes concurrencies) :
    Load :=
  ⟨variant, batchSizes[place.1], concurrencies[place.2], flags⟩

theorem nodup_places : (places batchSizes concurrencies).flatten.Nodup := by
  have product : (places batchSizes concurrencies).flatten =
      List.finRange batchSizes.length ×ˢ List.finRange concurrencies.length := by
    rw [places, ← List.flatMap_def]
    rfl
  rw [product]
  exact (List.nodup_finRange _).product (List.nodup_finRange _)

theorem map_finRange {β : Type} (words : List UInt32) (f : UInt32 → β) :
    (List.finRange words.length).map (fun i => f words[i]) = words.map f := by
  have through : (List.finRange words.length).map (fun i => f words[i]) =
      ((List.finRange words.length).map words.get).map f := by
    rw [List.map_map]
    rfl
  rw [through, List.map_get_finRange]

theorem map_places (variant : String) (flags : Keyed String) :
    (places batchSizes concurrencies).map (List.map (Place.load variant flags)) =
      batchSizes.map fun size => concurrencies.map fun concurrency =>
        ⟨variant, size, concurrency, flags⟩ := by
  have rows (i : Fin batchSizes.length) :
      ((List.finRange concurrencies.length).map (fun j => (i, j))).map (Place.load variant flags) =
        concurrencies.map fun concurrency => ⟨variant, batchSizes[i], concurrency, flags⟩ := by
    rw [List.map_map]
    exact map_finRange concurrencies (fun concurrency =>
      (⟨variant, batchSizes[i], concurrency, flags⟩ : Load))
  rw [places, List.map_map]
  simp only [Function.comp_def, rows]
  exact map_finRange batchSizes (fun size => concurrencies.map fun concurrency =>
    (⟨variant, size, concurrency, flags⟩ : Load))

/-- Whatever is fed in turn or left out, a load sweep gives out the loads of its itinerary and then
nothing; no place comes twice. -/
theorem gives_itinerary {variant : String} {exit : Bool} {metric : String} {flags : Keyed String}
    {past : List (Deed Load)} {c : LoadSweep}
    (reached : After (LoadSweep.of variant batchSizes concurrencies exit metric flags) past c)
    (inTurn : Deed.strays past = 0) :
    let visited := Walk.itinerary exit (Deed.worth metric past) (places batchSizes concurrencies)
    Deed.results past = (List.range (Deed.pulls past)).map (fun n =>
      .ok (visited[n]?.map (Place.load variant flags))) ∧ visited.Nodup := by
  intro visited
  refine ⟨?_, nodup_places.sublist (Walk.itinerary_sublist _)⟩
  have fresh : (LoadSweep.of variant batchSizes concurrencies exit metric flags).Fresh :=
    ⟨rfl, rfl, rfl⟩
  have gave := gaveOut_of_walks Course.follows Course.walks trivial trivial fresh
    (Course.neverFails _) reached inTurn
  have same : (LoadSweep.of variant batchSizes concurrencies exit metric flags).itinerary
      (Deed.worth metric past) = visited.map (Place.load variant flags) := by
    rw [fresh.itinerary_eq, ← Walk.itinerary_map, map_places]
    change Walk.rows exit _ (LoadSweep.rows variant batchSizes concurrencies flags).lists [] = _
    rw [LoadSweep.rows, Walk.rows_table, Series.toList_ofList]
    rfl
  change Deed.GaveOut Eq (Course.itinerary _ (Deed.worth metric past)) past at gave
  rw [same] at gave
  rw [gave.results_eq]
  simp only [List.getElem?_map]

/-- Two client batch sizes with two concurrencies, of which the first load only is answered. -/
theorem gives_itinerary_answeredOnce :
    let start : Driven LoadSweep Load :=
      ⟨LoadSweep.of "v" [1, 8] [1, 2] true "perf_throughput" [("shm", "on")], {}, []⟩
    let run := start.asks [.pull, .feed strayBatch, .pull, .pull, .pull]
    let visited := Walk.itinerary true (Deed.worth "perf_throughput" run.past) (places [1, 8] [1, 2])
    Deed.strays run.past = 0 ∧ Deed.pulls run.past = 4 ∧ visited = [(0, 0), (0, 1), (1, 0)] ∧
      Deed.results run.past = (List.range (Deed.pulls run.past)).map (fun n =>
        .ok (visited[n]?.map (Place.load "v" [("shm", "on")]))) := by
  intro start run visited
  have inTurn : Deed.strays run.past = 0 := by decide +kernel
  exact ⟨inTurn, by decide +kernel, by decide +kernel,
    (gives_itinerary (start.after_asks .start _) inTurn).1⟩

end LoadSweep

/-! ### Server sweeps -/

/-- A strategy that walks some rows: sets of overrides in the longest blocks that are equal but for
the batch size, or the batch sizes for each instance count. -/
inductive Strategy.Lays : Strategy → List (List Overrides) → Prop where
  | grid (sets : List Overrides) :
      Lays (.grid (Grid.rows sets)) (sets.splitBy fun o o' => decide (o.rowKey = o'.rowKey))
  | ladder (counts : Series UInt32) (batchSizes : List UInt32) (cpuOnly : Bool) :
      Lays (.ladder (Ladder.rows counts batchSizes cpuOnly))
        (counts.toList.map fun count => batchSizes.map (Ladder.overrides cpuOnly count))

theorem Strategy.Lays.adaptive {strategy : Strategy} {lists : List (List Overrides)}
    (lays : strategy.Lays lists) : strategy.isAdaptive = true := by
  cases lays with
  | grid sets => rfl
  | ladder counts batchSizes cpuOnly => rfl

/-- Rows without items are not laid, and not walked. -/
theorem Strategy.Lays.itinerary_eq {strategy : Strategy} {lists : List (List Overrides)}
    (lays : strategy.Lays lists) (exit : Bool) (worth : Nat → Option Binary64) :
    Walk.itinerary exit worth strategy.rows.lists = Walk.itinerary exit worth lists := by
  cases lays with
  | grid sets =>
    have blocks := Rows.lists_ofBlocks Overrides.rowKey sets
    exact congrArg (Walk.itinerary exit worth) blocks
  | ladder counts batchSizes cpuOnly =>
    exact Walk.rows_table (Ladder.overrides cpuOnly) counts batchSizes []

namespace ServerSweep

/-- The base that a sweep knows is one that was found for its model. -/
theorem found_of_after {r : Resources} {m : Model} {strategy : Strategy} {exit : Bool}
    (adaptive : strategy.isAdaptive = true) {past : List (Deed Variant)} {s : ServerSweep}
    (reached : After (ServerSweep.of r m strategy exit) past s) :
    Sweeps r m s ∧ ∀ base, s.base = some base → ∃ w, (r.base m.name w).1 = .ok base := by
  induction reached with
  | start => exact ⟨⟨rfl, rfl, adaptive⟩, fun base known => nomatch known⟩
  | @pull past s before w ih =>
    obtain ⟨sweeps, found⟩ := ih
    refine ⟨(sweeps_pull sweeps w).1, fun base => ?_⟩
    have pulled := adaptive_pull sweeps.adaptive w
    change (s.pull w).source.base = some base → _
    revert pulled
    generalize s.pull w = p
    intro pulled
    cases pulled with
    | ended finished left =>
      rcases left with rfl | rfl
      · exact found base
      · exact found base
    | failed current unknown refused names => exact found base
    | gave current before names =>
      intro known
      obtain rfl := Option.some.inj known
      rcases before with ⟨-, sought⟩ | ⟨known, -⟩
      · rw [sweeps.resources, sweeps.model] at sought
        exact sought
      · exact found _ known
  | @feed past s before batch w ih =>
    exact ⟨⟨ih.1.resources, ih.1.model, ih.1.adaptive⟩, ih.2⟩

/-- Whatever is fed in turn or left out, a sweep that walks gives out its itinerary, each set of
overrides as a variant of one base, and then nothing. -/
theorem gives_variants {r : Resources} {m : Model} (resolves : r.Resolves m) {strategy : Strategy}
    {lists : List (List Overrides)} (lays : strategy.Lays lists) {exit : Bool}
    {past : List (Deed Variant)} {s : ServerSweep}
    (reached : After (ServerSweep.of r m strategy exit) past s) (inTurn : Deed.strays past = 0) :
    ∃ base, (∃ w, (r.base m.name w).1 = .ok base) ∧
      Deed.GaveOut (fun o v => ∃ w, v = (Variant.derive m o base w).1)
        (Walk.itinerary exit (Deed.worth r.plan.objective past) lists) past := by
  have start : Sweeps r m (ServerSweep.of r m strategy exit) := ⟨rfl, rfl, lays.adaptive⟩
  have fresh : (ServerSweep.of r m strategy exit).course.Fresh := ⟨rfl, rfl, rfl⟩
  obtain ⟨sweeps, found⟩ := found_of_after lays.adaptive reached
  have gave := gaveOut_of_walks follows walks lays.adaptive start fresh
    (neverFails_sweeps resolves start) reached inTurn
  rw [fresh.itinerary_eq] at gave
  change Deed.GaveOut s.Derived (Walk.itinerary exit (Deed.worth r.plan.objective past)
    strategy.rows.lists) past at gave
  rw [lays.itinerary_eq] at gave
  cases known : s.base with
  | some base =>
    refine ⟨base, found base known, gave.imp ?_⟩
    rintro o v ⟨base', w, same, rfl⟩
    rw [known] at same
    cases same
    exact ⟨w, by rw [sweeps.model]⟩
  | none =>
    obtain ⟨base, later, answer⟩ := resolves {}
    refine ⟨base, ⟨{}, congrArg Prod.fst answer⟩, gave.imp ?_⟩
    rintro o v ⟨base', w, same, -⟩
    rw [known] at same
    cases same

/-- Sets in three blocks, the second one as the first but for what is between, and the batch sizes of
one instance count; of the variants the first only is answered. -/
theorem gives_variants_answeredOnce :
    let r : Resources := ⟨{}, Repository.ofConfigs [("m", [("backend", .text "onnx")])], none⟩
    let m : Model := { name := "m" }
    let first : Overrides := [(Overrides.batchSizeKey, .word 1)]
    let second : Overrides := [(Overrides.batchSizeKey, .word 2)]
    let other : Overrides := [("instances", .word 1)]
    let grid := Strategy.grid (Grid.rows [first, second, second, other, first])
    let calls : List Ask := [.pull, .feed strayBatch, .pull, .pull, .pull, .pull]
    let start : Driven ServerSweep Variant := ⟨ServerSweep.of r m grid true, {}, []⟩
    let past := (start.asks calls).past
    let walk := Walk.itinerary true (Deed.worth "perf_throughput" past)
      [[first, second, second], [other], [first]]
    r.Resolves m ∧ grid.Lays [[first, second, second], [other], [first]] ∧
      Deed.strays past = 0 ∧ walk = [first, second, other, first] ∧
      ∃ base, (∃ w, (r.base "m" w).1 = .ok base) ∧
        Deed.GaveOut (fun o v => ∃ w, v = (Variant.derive m o base w).1) walk past := by
  intro r m first second other grid calls start past walk
  have resolves : r.Resolves m := fun w => ⟨[("backend", .text "onnx")], w, rfl⟩
  have lays : grid.Lays [[first, second, second], [other], [first]] := .grid _
  have inTurn : Deed.strays past = 0 := by decide +kernel
  exact ⟨resolves, lays, inTurn, by decide +kernel,
    gives_variants resolves lays (start.after_asks .start calls) inTurn⟩

end ServerSweep
end ServingSweep
