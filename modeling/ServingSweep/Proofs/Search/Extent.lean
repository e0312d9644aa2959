import ServingSweep.Proofs.Search.Conduct
import ServingSweep.Proofs.Sweep.GridFirsts
import ServingSweep.Proofs.Sweep.Offers

/-!
How far a search goes at most. Each further round of a pull opens a variant, so a pull is over after
few rounds (`rounds_eq_steps`), and `bounded` pays for each probe with a load of a variant that is
still to come.
-/

namespace ServingSweep
open Source

namespace Search
variable {σ τ : Type}

section
variable [FiniteSource σ Variant] [Source τ Load]

def rounds : Nat → Search σ τ → World → Option (Pulled (Search σ τ) Probe)
  | 0, _, _ => none
  | n + 1, s, w =>
    match s.step w with
    | .finished pulled => some pulled
    | .onward s w => rounds n s w

theorem rounds_eq_steps {n : Nat} {s : Search σ τ} (enough : FiniteSource.ahead s.server < n)
    (w : World) : rounds n s w = some (s.steps w) := by
  induction n generalizing s w with
  | zero => omega
  | succ n ih =>
    simp only [rounds]
    cases found : s.step w with
    | finished pulled => rw [steps_finished found]
    | onward next later =>
      have fewer := ahead_step found
      rw [steps_onward found]
      exact ih (by omega) later

/-- A pull, given up after some rounds of its loop. -/
def pullWithin (n : Nat) (s : Search σ τ) (w : World) : Option (Pulled (Search σ τ) Probe) :=
  rounds n { s with turn := s.turn.pulled.start } (w.sayAll (s.turn.pullEvents s.model))

theorem pullWithin_eq {n : Nat} {s : Search σ τ} (enough : FiniteSource.ahead s.server < n)
    (w : World) : s.pullWithin n w = some (Source.pull s w) :=
  rounds_eq_steps (s := { s with turn := s.turn.pulled.start }) enough _

end

/-! ### Probes that can still come -/

section
variable [FiniteSource σ Variant] [FiniteSource τ Load]

def loadsAhead (s : Search σ τ) : Nat := s.current.elim 0 (fun under => FiniteSource.ahead under.2)

/-- The probes given out and those that can still come are within bounds: so many loads for each of
so many positions of the server sweep. -/
structure Bounded (positions loads : Nat) (s : Search σ τ) : Prop where
  fresh : ∀ opened variant, FiniteSource.ahead (s.makeLoad opened variant) ≤ loads
  server : FiniteSource.ahead s.server ≤ positions
  probes : s.issued + s.loadsAhead + FiniteSource.ahead s.server * loads ≤ positions * loads

theorem bounded_server {positions loads : Nat} {s : Search σ τ}
    (bounded : Bounded positions loads s) {server : σ}
    (fewer : FiniteSource.ahead server ≤ FiniteSource.ahead s.server) :
    Bounded positions loads { s with server := server } := by
  refine ⟨bounded.fresh, Nat.le_trans fewer bounded.server, ?_⟩
  have probes := bounded.probes
  have less := Nat.mul_le_mul_right loads fewer
  change s.issued + s.loadsAhead + FiniteSource.ahead server * loads ≤ _
  omega

theorem bounded_current {positions loads : Nat} {s : Search σ τ}
    (bounded : Bounded positions loads s) {variant : Variant} {sweep sweep' : τ}
    (current : s.current = some (variant, sweep))
    (fewer : FiniteSource.ahead sweep' ≤ FiniteSource.ahead sweep) :
    Bounded positions loads { s with current := some (variant, sweep') } := by
  refine ⟨bounded.fresh, bounded.server, ?_⟩
  have probes := bounded.probes
  simp only [loadsAhead, current, Option.elim_some] at probes ⊢
  omega

theorem bounded {positions loads : Nat} :
    Invariant (σ := σ) (τ := τ) (fun _ => Bounded positions loads)
      (fun _ => Bounded positions loads) where
  begins bounded := ⟨bounded.fresh, bounded.server, bounded.probes⟩
  moves {_ s _} bounded move := by
    have probes := bounded.probes
    cases move with
    | @closes variant sweep w later current ended =>
      have closed : Bounded positions loads { s with current := none } := by
        refine ⟨bounded.fresh, bounded.server, ?_⟩
        simp only [loadsAhead, current, Option.elim_some, Option.elim_none] at probes ⊢
        omega
      have fed := bounded_server closed (FiniteSource.ahead_feed_le s.server s.gathered
        (later.say (.sweepEnded variant.name s.pending.length)))
      exact ⟨fed.fresh, fed.server, fed.probes⟩
    | @opens variant w idle given =>
      have fewer := FiniteSource.ahead_pull_lt s.server w variant given
      have room := bounded.fresh s.opened variant
      refine ⟨bounded.fresh, Nat.le_trans (Nat.le_of_lt fewer) bounded.server, ?_⟩
      -- The variant that was given out pays for its loads.
      have less := Nat.mul_le_mul_right loads (Nat.succ_le_of_lt fewer)
      rw [Nat.succ_mul] at less
      simp only [loadsAhead, idle, Option.elim_some, Option.elim_none] at probes ⊢
      omega
  ends {_ s _ _} bounded ends := by
    cases ends with
    | @gives variant sweep w load current given =>
      have fewer := FiniteSource.ahead_pull_lt sweep w load given
      refine ⟨bounded.fresh, bounded.server, ?_⟩
      have probes := bounded.probes
      simp only [loadsAhead, current, Option.elim_some] at probes ⊢
      omega
    | loadFails current failed =>
      exact bounded_current bounded current (FiniteSource.ahead_pull_le _ _)
    | serverFails idle failed => exact bounded_server bounded (FiniteSource.ahead_pull_le _ _)
    | serverEnds idle ended => exact bounded_server bounded (FiniteSource.ahead_pull_le _ _)
  feeds {_ s} batch w bounded := by
    rcases feed_cases s batch w with ⟨-, same⟩ | ⟨_, sweep, later, current, same⟩
    · rw [same]
      exact ⟨bounded.fresh, bounded.server, bounded.probes⟩
    · rw [same]
      have fed := bounded_current bounded current (FiniteSource.ahead_feed_le sweep batch later)
      exact ⟨fed.fresh, fed.server, fed.probes⟩

theorem issued_of_after {positions loads : Nat} {start s : Search σ τ} {past : List (Deed Probe)}
    (within : Bounded positions loads start) (unnumbered : Counted [] start)
    (reached : After start past s) :
    s.issued = (Deed.given past).length ∧ (Deed.given past).length ≤ positions * loads := by
  have probes := (bounded.holds within reached).probes
  have numbers := congrArg List.length (counted.holds unnumbered reached)
  rw [List.length_map, List.length_range] at numbers
  omega

end

end Search

/-! ### Searches of a plan -/

/-- The number of variants that a strategy has to give out. -/
def Strategy.positions (s : Strategy) : Nat := if s.isAdaptive then s.rows.left else 1

theorem ServerSweep.ahead_of (r : Resources) (m : Model) (strategy : Strategy) (exit : Bool) :
    FiniteSource.ahead (ServerSweep.of r m strategy exit) = strategy.positions := by
  change (ServerSweep.of r m strategy exit).ahead = _
  unfold ServerSweep.ahead Strategy.positions
  rfl

theorem LoadSweep.ahead_ofPlan (p : Plan) (m : Model) (variant : String) :
    FiniteSource.ahead (LoadSweep.ofPlan p m variant) =
      (LoadSweep.batchSizes m).length * (LoadSweep.concurrencies p m).length := by
  change (LoadSweep.rows _ _ _ _).items.length - 0 = _
  rw [LoadSweep.rows, Rows.items_table, Series.toList_ofList]
  simp [List.length_flatMap]

theorem Search.bounded_ofPlan (r : Resources) (m : Model) (baselineOnly : Bool) (run : Uuid)
    (w : World) :
    Search.Bounded (Strategy.ofPlan r.plan m baselineOnly).positions
      ((LoadSweep.batchSizes m).length * (LoadSweep.concurrencies r.plan m).length)
      (Search.ofPlan r m baselineOnly run w).1 := by
  have server : FiniteSource.ahead (Search.ofPlan r m baselineOnly run w).1.server =
      (Strategy.ofPlan r.plan m baselineOnly).positions := ServerSweep.ahead_of _ _ _ _
  refine ⟨fun _ variant => Nat.le_of_eq (LoadSweep.ahead_ofPlan r.plan m variant.name),
    Nat.le_of_eq server, ?_⟩
  rw [server]
  change 0 + 0 + _ ≤ _
  omega

/-! ### All sweeps -/

/-- Whatever is called, load sweeps and server sweeps that walk go through their rows in order, give
out a front of each row that they leave, and end after one pull for each item at the latest. A grid
tries every assignment of its axes with the first batch size. The pulls of a search end, and there
are no more probes than loads of all variants. -/
theorem sweeps_are_thorough (exit : Bool) :
    (∀ (variant : String) (batchSizes concurrencies : List UInt32) (metric : String)
      (flags : Keyed String),
      Thorough (fun c : LoadSweep => c) (fun _ => Eq)
        ((batchSizes.map (fun size => concurrencies.map (fun concurrency =>
          (⟨variant, size, concurrency, flags⟩ : Load)))).filter (fun row => !row.isEmpty))
        (LoadSweep.of variant batchSizes concurrencies exit metric flags)) ∧
    (∀ (r : Resources) (m : Model), r.Resolves m →
      (∀ sets : List Overrides,
        Thorough ServerSweep.course ServerSweep.Derived
          (sets.splitBy (fun a b => decide (a.rowKey = b.rowKey)))
          (ServerSweep.of r m (.grid (Grid.rows sets)) exit)) ∧
      (∀ (counts : Series UInt32) (batchSizes : List UInt32) (cpuOnly : Bool),
        Thorough ServerSweep.course ServerSweep.Derived
          ((counts.toList.map (fun count => batchSizes.map (Ladder.overrides cpuOnly count))).filter
            (fun row => !row.isEmpty))
          (ServerSweep.of r m (.ladder (Ladder.rows counts batchSizes cpuOnly)) exit)) ∧
      ∀ axes : List Axis, (∃ axis ∈ axes, axis.values ≠ []) →
        ∀ past s, After (ServerSweep.of r m (.grid (Grid.ofAxes axes)) exit) past s →
          .pulled (.ok none) ∈ past →
          ∀ values, Grid.Picks (Grid.others axes) values → ∃ v ∈ Deed.given past,
            s.Derived (Grid.withSize (Grid.assign [] (Grid.others axes) values)
              (Grid.firstSize (Grid.sizes axes))) v) ∧
    ∀ (r : Resources) (m : Model) (baselineOnly : Bool) (run : Uuid) (w : World) past s,
      After (Search.ofPlan r m baselineOnly run w).1 past s →
      let positions := (Strategy.ofPlan r.plan m baselineOnly).positions
      (∀ n w, positions < n → s.pullWithin n w = some (Source.pull s w)) ∧
      (Deed.given past).length ≤ positions *
        ((LoadSweep.batchSizes m).length * (LoadSweep.concurrencies r.plan m).length) := by
  refine ⟨?_, ?_, ?_⟩
  · intro variant batchSizes concurrencies metric flags
    exact LoadSweep.thorough variant batchSizes concurrencies exit metric flags
  · intro r m resolves
    have grid (sets : List Overrides) :
        Thorough ServerSweep.course ServerSweep.Derived
          (sets.splitBy (fun a b => decide (a.rowKey = b.rowKey)))
          (ServerSweep.of r m (.grid (Grid.rows sets)) exit) :=
      ServerSweep.thorough resolves rfl exit (Rows.lists_ofBlocks Overrides.rowKey sets)
    refine ⟨grid, ?_, ?_⟩
    · intro counts batchSizes cpuOnly
      exact ServerSweep.thorough resolves rfl exit (Rows.lists_table_filter _ _ _)
    · intro axes filled past s reached ended values picks
      obtain ⟨row, member, head⟩ := Grid.exists_row_firstOf filled picks
      have rows : row ∈ (Grid.choices axes).splitBy (fun a b => decide (a.rowKey = b.rowKey)) := by
        rw [← Rows.lists_ofBlocks]
        exact member
      obtain ⟨first, same, tried⟩ := (grid (Grid.choices axes)).firsts past s reached ended row rows
      rw [head] at same
      cases same
      exact tried
  · intro r m baselineOnly run w past s reached positions
    have start := Search.bounded_ofPlan r m baselineOnly run w
    have unnumbered : Search.Counted [] (Search.ofPlan r m baselineOnly run w).1 := rfl
    have bounded := Search.bounded.holds start reached
    have counted : (Deed.given past).map Probe.number = List.range s.issued :=
      Search.counted.holds unnumbered reached
    refine ⟨?_, ?_⟩
    · intro n w enough
      have few : FiniteSource.ahead s.server < n := Nat.lt_of_le_of_lt bounded.server enough
      exact Search.pullWithin_eq few w
    · have length : (Deed.given past).length = s.issued := by
        simpa using congrArg List.length counted
      have probes := bounded.probes
      change _ ≤ (Strategy.ofPlan r.plan m baselineOnly).positions * _
      omega

def twoAxes : List Axis :=
  [⟨"a", [.word 1, .word 2]⟩, ⟨Overrides.batchSizeKey, [.word 4, .word 8]⟩]

def gridSweep : ServerSweep :=
  ServerSweep.of Tour.bareModel Tour.twoLoads (.grid (Grid.ofAxes twoAxes)) true

def unfed : List (Deed Variant) × ServerSweep :=
  let first := gridSweep.pull {}
  let second := first.source.pull first.world
  let third := second.source.pull second.world
  ([.pulled third.result, .pulled second.result, .pulled first.result], third.source)

theorem after_unfed : After gridSweep unfed.1 unfed.2 :=
  ((After.start.pull {}).pull _).pull _

/-- A grid that is never fed still tries both values of its axis, each with the first batch size. -/
theorem sweeps_are_thorough_unfed :
    Tour.bareModel.Resolves Tour.twoLoads ∧ After gridSweep unfed.1 unfed.2 ∧
    .pulled (.ok none) ∈ unfed.1 ∧ Grid.Picks (Grid.others twoAxes) [.word 2] ∧
    (∃ v ∈ Deed.given unfed.1,
      unfed.2.Derived [("a", .word 2), (Overrides.batchSizeKey, .word 4)] v) ∧
    let search := (Search.ofPlan Tour.bareModel Tour.twoLoads false ⟨0⟩ {}).1
    let pulled := Source.pull search {}
    After search [.pulled pulled.result] pulled.source ∧
    (∀ w, pulled.source.pullWithin 7 w = some (Source.pull pulled.source w)) ∧
    (Deed.given [.pulled pulled.result]).length ≤ 6 * (1 * 2) := by
  have resolves : Tour.bareModel.Resolves Tour.twoLoads := fun w => ⟨[], w, rfl⟩
  have filled : ∃ axis ∈ twoAxes, axis.values ≠ [] := ⟨_, List.mem_cons_self, by simp⟩
  have third : .pulled (.ok none) ∈ unfed.1 := by
    have result : (((gridSweep.pull {}).source.pull (gridSweep.pull {}).world).source.pull
        ((gridSweep.pull {}).source.pull (gridSweep.pull {}).world).world).result = .ok none := by
      decide +kernel
    exact List.mem_cons.mpr (.inl (congrArg Deed.pulled result.symm))
  have picks : Grid.Picks (Grid.others twoAxes) [.word 2] := .cons (by simp) .nil
  have positions : (Strategy.ofPlan Tour.bareModel.plan Tour.twoLoads false).positions = 6 := by
    decide +kernel
  obtain ⟨-, servers, searches⟩ := sweeps_are_thorough true
  have tried := (servers _ _ resolves).2.2 twoAxes filled _ _ after_unfed third _ picks
  let search := (Search.ofPlan Tour.bareModel Tour.twoLoads false ⟨0⟩ {}).1
  have reached :
      After search [.pulled (Source.pull search {}).result] (Source.pull search {}).source :=
    After.start.pull {}
  obtain ⟨pulls, probes⟩ := searches Tour.bareModel Tour.twoLoads false ⟨0⟩ {} _ _ reached
  rw [positions] at pulls probes
  exact ⟨resolves, after_unfed, third, picks, tried, reached, fun w => pulls 7 w (by omega), probes⟩

end ServingSweep
