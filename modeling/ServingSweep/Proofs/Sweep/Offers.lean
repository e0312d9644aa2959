import ServingSweep.LoadSweep
import ServingSweep.Proofs.Search.Composition
import ServingSweep.Proofs.Sweep.Thorough

/-!
Load sweeps and server sweeps along their courses. A server sweep that walks offers a variant of the
current overrides, unless the base configuration is not found; both kinds of sweep are thorough.
-/

namespace ServingSweep
open Source

namespace Course
variable {α : Type}

theorem walks : Walks (fun c : Course α => c) (fun _ => Eq) (fun _ => True) := by
  refine ⟨?_, fun _ _ _ _ => ⟨trivial, rfl⟩, fun _ _ _ _ _ same => same,
    fun _ _ _ _ _ _ same => same⟩
  intro c w _
  refine ⟨trivial, ?_⟩
  change Offers Eq c (c.pull w).result (c.pull w).source
  rcases pull_cases c w with ⟨finished, same⟩ | ⟨a, given, same⟩
  · rw [same]
    exact .ended w finished rfl (outstanding_advance c w)
  · rw [same]
    exact .gave w rfl given rfl rfl

end Course

/-- The base configuration of a model is found whenever it is looked for. -/
def Resources.Resolves (r : Resources) (m : Model) : Prop :=
  ∀ w, ∃ base later, r.base m.name w = (.ok base, later)

namespace ServerSweep

/-- A variant of some overrides, on the base that the sweep found. -/
def Derived (s : ServerSweep) (o : Overrides) (v : Variant) : Prop :=
  ∃ base w, s.base = some base ∧ v = (Variant.derive s.model o base w).1

/-- An offer fails, and may be made again, or gives out a variant of the overrides. -/
theorem offer_cases (s : ServerSweep) (o : Overrides) (w : World) :
    (∃ fault later, (s.resources.base s.model.name w).1 = .error fault ∧
      s.offer o w = ⟨.error fault, s, later⟩) ∨
    ∃ base, (s.base = none ∨ s.base = some base) ∧ ∃ later later', s.offer o w =
      ⟨.ok (some (Variant.derive s.model o base later).1), { s with base := some base }.yielded,
        later'⟩ := by
  have offered (base : Config) (later : World)
      (found : s.findBase w = (.ok (base, { s with base := some base }), later)) :
      s.offer o w = ⟨.ok (some (Variant.derive s.model o base later).1),
        { s with base := some base }.yielded, (Variant.derive s.model o base later).2⟩ := by
    unfold offer
    rw [found]
  cases known : s.base with
  | some base =>
    have same : { s with base := some base } = s := by rw [← known]
    have found : s.findBase w = (.ok (base, { s with base := some base }), w) := by
      rw [same]
      simp only [findBase, known]
    exact .inr ⟨base, .inr rfl, _, _, offered base w found⟩
  | none =>
    rcases answer : s.resources.base s.model.name w with ⟨fault | base, later⟩
    · refine .inl ⟨fault, later, rfl, ?_⟩
      simp only [offer, findBase, known, answer]
    · have found : s.findBase w = (.ok (base, { s with base := some base }), later) := by
        simp only [findBase, known, answer]
      exact .inr ⟨base, .inl rfl, _, _, offered base later found⟩

/-- A sweep that walks offers the current overrides, if there are any. -/
theorem current_adaptive {s : ServerSweep} (adaptive : s.strategy.isAdaptive = true) (w : World) :
    (s.course.current? = none ∧ s.current w = ⟨.ok none, s, w⟩) ∨
      ∃ o, s.course.current? = some o ∧ s.current w = s.offer o w := by
  unfold ServerSweep.current
  cases strategy : s.strategy with
  | baseline => rw [strategy] at adaptive; cases adaptive
  | remote => rw [strategy] at adaptive; cases adaptive
  | grid rows =>
    cases s.course.current? with
    | none => exact .inl ⟨rfl, rfl⟩
    | some o => exact .inr ⟨o, rfl, rfl⟩
  | ladder rows =>
    cases s.course.current? with
    | none => exact .inl ⟨rfl, rfl⟩
    | some o => exact .inr ⟨o, rfl, rfl⟩

/-- A pull of a sweep that walks ends where nothing is current, and offers what is. -/
theorem pull_adaptive {s : ServerSweep} (adaptive : s.strategy.isAdaptive = true) (w : World) :
    ((s.advance w).1.course.current? = none ∧
      ∃ last, (last = (s.advance w).1 ∨ last = (s.advance w).1.start) ∧
        s.pull w = ⟨.ok none, last, (s.advance w).2⟩) ∨
    ∃ o, (s.advance w).1.course.current? = some o ∧
      s.pull w = (s.advance w).1.start.offer o (s.advance w).2 := by
  have still : (s.advance w).1.strategy.isAdaptive = true := adaptive
  generalize advanced : (s.advance w).1 = t at still
  cases done : t.isDone with
  | true =>
    have finished : t.course.current? = none := by
      have empty : t.course.rows.isEmpty = true := by
        simpa [isDone, still] using (Bool.and_eq_true_iff.mp done).2
      rw [Course.current?, Series.isEmpty_iff.mp empty]
      rfl
    refine .inl ⟨finished, t, .inl rfl, ?_⟩
    simp only [pull, advanced, done, if_true]
  | false =>
    have pulled : s.pull w = t.start.current (s.advance w).2 := by
      simp only [pull, advanced, done, Bool.false_eq_true, if_false]
    rw [pulled]
    rcases current_adaptive (s := t.start) still (s.advance w).2 with
      ⟨finished, same⟩ | ⟨o, given, same⟩
    · exact .inl ⟨finished, t.start, .inr rfl, same⟩
    · exact .inr ⟨o, given, same⟩

structure Sweeps (r : Resources) (m : Model) (s : ServerSweep) : Prop where
  resources : s.resources = r
  model : s.model = m
  adaptive : s.strategy.isAdaptive = true

variable {r : Resources} {m : Model}

/-- A pull keeps what the sweep is for, and the base once it is found. -/
theorem sweeps_pull {s : ServerSweep} (sweeps : Sweeps r m s) (w : World) :
    Sweeps r m (s.pull w).source ∧
      ∀ base, s.base = some base → (s.pull w).source.base = some base := by
  rcases pull_adaptive sweeps.adaptive w with ⟨-, last, left, same⟩ | ⟨o, -, same⟩
  · rw [same]
    rcases left with rfl | rfl
    · exact ⟨⟨sweeps.resources, sweeps.model, sweeps.adaptive⟩, fun _ known => known⟩
    · exact ⟨⟨sweeps.resources, sweeps.model, sweeps.adaptive⟩, fun _ known => known⟩
  · rw [same]
    rcases offer_cases (s.advance w).1.start o (s.advance w).2 with
      ⟨fault, later, -, failed⟩ | ⟨base, before, later, later', gave⟩
    · rw [failed]
      exact ⟨⟨sweeps.resources, sweeps.model, sweeps.adaptive⟩, fun _ known => known⟩
    · rw [gave]
      refine ⟨⟨sweeps.resources, sweeps.model, sweeps.adaptive⟩, ?_⟩
      intro base' known
      change s.base = none ∨ s.base = some base at before
      rw [known] at before
      exact (before.resolve_left (Option.some_ne_none base')).symm

theorem offers_pull {s : ServerSweep} (sweeps : Sweeps r m s) (w : World) :
    Course.Offers (s.pull w).source.Derived s.course (s.pull w).result
      (s.pull w).source.course := by
  have settled : (s.advance w).1.course.turn.outstanding = false :=
    Course.outstanding_advance s.course w
  rcases pull_adaptive sweeps.adaptive w with ⟨finished, last, left, same⟩ | ⟨o, current, same⟩
  · rw [same]
    rcases left with rfl | rfl
    · exact .ended w finished rfl settled
    · exact .ended w finished rfl settled
  · rw [same]
    rcases offer_cases (s.advance w).1.start o (s.advance w).2 with
      ⟨fault, later, -, failed⟩ | ⟨base, -, later, later', gave⟩
    · rw [failed]
      exact .failed w fault rfl settled
    · rw [gave]
      exact .gave w ⟨base, later, rfl, rfl⟩ current rfl rfl

theorem walks : Walks ServerSweep.course Derived (Sweeps r m) where
  pulled s w sweeps := ⟨(sweeps_pull sweeps w).1, offers_pull sweeps w⟩
  fed s batch w sweeps := ⟨⟨sweeps.resources, sweeps.model, sweeps.adaptive⟩, rfl⟩
  kept_pulled s w o v sweeps derived := by
    obtain ⟨base, later, found, rfl⟩ := derived
    obtain ⟨after, kept⟩ := sweeps_pull sweeps w
    refine ⟨base, later, kept base found, ?_⟩
    change _ = (Variant.derive (s.pull w).source.model o base later).1
    rw [after.model, sweeps.model]
  kept_fed s batch w o v sweeps derived := derived

theorem neverFails_sweeps (resolves : r.Resolves m) {s : ServerSweep} (sweeps : Sweeps r m s) :
    NeverFails s := by
  refine neverFails_of_invariant (Sweeps r m) sweeps (fun s w sweeps => (walks.pulled s w sweeps).1)
    (fun s batch w sweeps => (walks.fed s batch w sweeps).1) ?_
  intro s w fault sweeps
  change (s.pull w).result ≠ .error fault
  rcases pull_adaptive sweeps.adaptive w with ⟨-, last, -, same⟩ | ⟨o, -, same⟩
  · rw [same]
    exact fun impossible => nomatch impossible
  · rw [same]
    rcases offer_cases (s.advance w).1.start o (s.advance w).2 with
      ⟨fault', later, missing, -⟩ | ⟨base, -, later, later', gave⟩
    · obtain ⟨base, later, found⟩ := resolves (s.advance w).2
      have found : s.resources.base s.model.name (s.advance w).2 = (.ok base, later) := by
        rw [sweeps.resources, sweeps.model]
        exact found
      change (s.resources.base s.model.name (s.advance w).2).1 = _ at missing
      rw [found] at missing
      cases missing
    · rw [gave]
      exact fun impossible => nomatch impossible

theorem thorough (resolves : r.Resolves m) {strategy : Strategy}
    (adaptive : strategy.isAdaptive = true) (exit : Bool) {lists : List (List Overrides)}
    (rows : strategy.rows.lists = lists) :
    Thorough ServerSweep.course Derived lists (ServerSweep.of r m strategy exit) := by
  have sweeps : Sweeps r m (ServerSweep.of r m strategy exit) := ⟨rfl, rfl, adaptive⟩
  exact walks.thorough sweeps rfl (neverFails_sweeps resolves sweeps) rows

end ServerSweep

/-- A table without its empty rows. -/
theorem Rows.lists_table_filter {α β γ : Type} (item : β → γ → α) (down : Series β)
    (across : List γ) :
    (table item down across).lists =
      (down.toList.map (fun b => across.map (item b))).filter (fun row => !row.isEmpty) := by
  cases across with
  | nil => simp [table]
  | cons first across =>
    rw [lists_table, List.filter_eq_self.mpr]
    intro row member
    obtain ⟨b, -, rfl⟩ := List.mem_map.mp member
    rfl

theorem LoadSweep.thorough (variant : String) (batchSizes concurrencies : List UInt32) (exit : Bool)
    (metric : String) (flags : Keyed String) :
    Thorough (fun c : LoadSweep => c) (fun _ => Eq)
      ((batchSizes.map (fun size => concurrencies.map (fun concurrency =>
        (⟨variant, size, concurrency, flags⟩ : Load)))).filter (fun row => !row.isEmpty))
      (LoadSweep.of variant batchSizes concurrencies exit metric flags) := by
  refine Course.walks.thorough trivial rfl (Course.neverFails _) ?_
  change (LoadSweep.rows variant batchSizes concurrencies flags).lists = _
  rw [LoadSweep.rows, Rows.lists_table_filter, Series.toList_ofList]

end ServingSweep
