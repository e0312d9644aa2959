import ServingSweep.Proofs.Search.Productive
import ServingSweep.Proofs.Sweep.Distinct
import ServingSweep.Proofs.Sweep.Phases
import ServingSweep.Run

/-!
Driven searches one after the other in one world. Within a pass the variants have names of their
own, as their overrides differ, and the loads of a variant differ; between passes the names differ
in the model or in whether they are numbered. So no trial is made twice (`profiled_once`).
-/

namespace ServingSweep
open Source
open scoped List

/-! ### Plays -/

/-- A driver that gives the answers of a list, one after the other. -/
theorem Driver.exists_answers {α : Type} (t : List (α × Batch)) :
    ∃ d : Driver α, d.Answers [] t := by
  let d : Driver α := fun seen _ => (t[seen.length]?.map Prod.snd).getD []
  have goesOn : ∀ seen rest : List (α × Batch), t = seen ++ rest → d.Answers seen rest := by
    intro seen rest
    induction rest generalizing seen with
    | nil => exact fun _ => trivial
    | cons e rest ih =>
      intro split
      obtain ⟨a, batch⟩ := e
      refine ⟨?_, ih (seen ++ [(a, batch)]) (by rw [split, List.append_assoc]; rfl)⟩
      simp only [d, split, List.getElem?_append_right (Nat.le_refl _), Nat.sub_self,
        List.getElem?_cons_zero, Option.map_some, Option.getD_some]
  exact ⟨d, goesOn [] t rfl⟩

/-- What a play gives out, calls in that order give out. -/
theorem Source.Plays.after {σ α : Type} [Source σ α] {p : Pulled σ α} {t : List (α × Batch)}
    {last : σ} {later : World} (play : Plays p t last later) :
    ∀ {start s : σ} {w : World} {past : List (Deed α)}, After start past s → Source.pull s w = p →
      ∃ calls, After start calls last ∧ Deed.given calls = Deed.given past ++ t.map Prod.fst := by
  induction play with
  | ended last later =>
    intro start s w past reached pulled
    have further := reached.pull w
    rw [pulled] at further
    exact ⟨_, further, (List.append_nil _).symm⟩
  | @item a batch source _ w₁ _ t _ ih =>
    intro start s w past reached pulled
    have further := (reached.pull w).feed batch w₁
    rw [pulled] at further
    obtain ⟨calls, after, given⟩ := ih further rfl
    refine ⟨calls, after, given.trans ?_⟩
    change Deed.given past ++ [a] ++ t.map Prod.fst = _
    rw [List.append_assoc]
    rfl

/-- A driven load sweep gives out loads of its rows, in order. -/
theorem LoadSweep.sublist_of_plays {p : Plan} {m : Model} {variant : String} {w : World}
    {t : List (Load × Batch)} {last : LoadSweep} {later : World}
    (play : Plays (Source.pull (ofPlan p m variant) w) t last later) :
    t.map Prod.fst <+ (Course.rows (ofPlan p m variant)).items := by
  obtain ⟨calls, after, given⟩ := play.after .start rfl
  obtain ⟨loads, -, made, among, -, -⟩ :=
    (Course.walks (α := Load)).exists_trail trivial rfl after
  rw [List.forall₂_eq_eq_eq] at made
  rw [Rows.flatten_lists, made, given] at among
  exact among

/-! ### Names within a pass -/

namespace Search

def calls (m : Model) (sets : List Overrides) : List Names.Call := sets.map (fun o => (m.name, o))

def Titled (m : Model) (history : List Names.Call) (o : Overrides) (v : Variant) : Prop :=
  ∃ base, v = Variant.build (Names.title history (m.name, o)) m o base

theorem titled_derive {w : World} {past : List Names.Call} (recorded : Names.Recorded w.names past)
    (m : Model) (o : Overrides) (base : Config) :
    Titled m (past ++ [(m.name, o)]) o (Variant.derive m o base w).1 ∧
      Names.Recorded (Variant.derive m o base w).2.names (past ++ [(m.name, o)]) := by
  obtain ⟨name, named⟩ := Names.recorded_name recorded (m.name, o)
  exact ⟨⟨base, congrArg (fun name => Variant.build name m o base) name⟩, named⟩

/-- The loads of a variant name nothing, and neither does handing their results over. -/
theorem names_of_loads {r : Resources} {m : Model} {variant : Variant} {w drained : World}
    {t : List (Load × Batch)} {sweep : LoadSweep}
    (loads : Plays (Source.pull (LoadSweep.ofPlan r.plan m variant.name)
      (w.say (.profiling variant.name))) t sweep drained) (server : ServerSweep) (results : Batch) :
    (server.feed results
      (drained.say (.sweepEnded variant.name results.length))).2.names = w.names :=
  (Course.names_of_plays loads).trans (Course.names_pull _ _)

/-- After the current overrides and one feed come overrides that were still ahead. -/
theorem sublist_of_given {c : Course Overrides} {given : ServerSweep} {o : Overrides}
    (current : c.current? = some o) (course : given.course = c.start.yielded) {results : Batch}
    {told w : World} {sets : List Overrides}
    (among : sets <+ ((given.feed results told).1.advance w).1.course.rows.items) :
    o :: sets <+ c.rows.items := by
  have step := ServerSweep.stepped_fed current course results told w
  rw [step.rows] at among
  have further : sets <+ c.rows.items.tail := among.trans (Rows.next_suffix _ _).sublist
  rw [Course.current?, Rows.current?_eq] at current
  obtain ⟨left, items⟩ := List.head?_eq_some_iff.mp current
  rw [items] at further ⊢
  exact further.cons_cons o

/-- A driven search that walks gives out variants of different overrides, each under its title. -/
theorem titled_of_nested {r : Resources} {m : Model} {opened : List Variant}
    {pulled : Pulled ServerSweep Variant} {parts : Parts} {last : ServerSweep} {later : World}
    (nested : Nested (fun _ variant => LoadSweep.ofPlan r.plan m variant.name) opened pulled parts
      last later) :
    ∀ {s : ServerSweep} {w : World} {past : List Names.Call}, s.pull w = pulled →
      ServerSweep.Sweeps r m s → Names.Recorded w.names past →
      ∃ sets, sets <+ (s.advance w).1.course.rows.items ∧
        List.Forall₂ (Titled m (past ++ calls m sets)) sets (parts.map Prod.fst) ∧
        Names.Recorded later.names (past ++ calls m sets) := by
  induction nested with
  | ended opened server w₁ =>
    intro s w past pulled sweeps recorded
    have pull := ServerSweep.adaptive_pull sweeps.adaptive w
    rw [pulled] at pull
    cases pull with
    | ended finished left =>
      refine ⟨[], List.nil_sublist _, .nil, ?_⟩
      rw [show (s.advance w).2.names = w.names from Course.names_advance s.course w, calls,
        List.map_nil, List.append_nil]
      exact recorded
  | @variant variant opened server _ sweep w₁ drained later t rest loads further ih =>
    intro s w past pulled sweeps recorded
    have pull := ServerSweep.adaptive_pull sweeps.adaptive w
    rw [pulled] at pull
    cases pull with
    | @gave o base found current before names =>
      rw [sweeps.model] at loads further ih ⊢
      rw [← names] at recorded
      obtain ⟨own, named⟩ := titled_derive recorded m o base
      let given := ({ (s.advance w).1.start with base := some base }).yielded
      let results := t.flatMap Prod.snd
      let told := drained.say
        (.sweepEnded (Variant.derive m o base found).1.name results.length)
      let fed := given.feed results told
      -- Only opening the variant names something, so the history grows by this call alone.
      have quiet : fed.2.names = (Variant.derive m o base found).2.names :=
        names_of_loads loads given results
      rw [← quiet] at named
      obtain ⟨sets, among, titled, last⟩ := ih (s := fed.1) (w := fed.2) rfl
        ⟨sweeps.resources, sweeps.model, sweeps.adaptive⟩ named
      have grown : past ++ calls m (o :: sets) = past ++ [(m.name, o)] ++ calls m sets :=
        List.append_cons _ _ _
      refine ⟨o :: sets, ?_, ?_, ?_⟩
      · exact sublist_of_given current rfl among
      · rw [grown]
        obtain ⟨base, own⟩ := own
        rw [← title_cons past (calls m sets), List.append_cons] at own
        exact .cons ⟨base, own⟩ titled
      · rw [grown]
        exact last

theorem nested_of_fixed {r : Resources} {m : Model} {s : ServerSweep}
    (fixed : s.strategy.isAdaptive = false) {w later : World} {v : Variant}
    (given : (s.pull w).result = .ok (some v)) {opened : List Variant} {parts : Parts}
    {last : ServerSweep} (nested : Nested (fun _ variant => LoadSweep.ofPlan r.plan m variant.name)
      opened (s.pull w) parts last later) :
    parts.map Prod.fst = [v] ∧ later.names = (s.pull w).world.names := by
  have begun := ServerSweep.started_pull s w
  have still : (s.pull w).source.strategy.isAdaptive = false := by
    rw [(ServerSweep.continues_pull s w).strategy]
    exact fixed
  revert begun still given nested
  generalize s.pull w = p
  intro given nested begun still
  cases nested with
  | ended => cases given
  | @variant variant _ server _ sweep w₁ drained _ t rest loads further =>
    cases given
    let results := t.flatMap Prod.snd
    let told := drained.say (.sweepEnded v.name results.length)
    let fed := server.feed results told
    have finished : fed.1.isDone = true := by
      change (server.course.turn.started && (!server.strategy.isAdaptive || _)) = true
      rw [show server.course.turn.started = true from begun,
        show server.strategy.isAdaptive = false from still]
      rfl
    have ends : fed.1.pull fed.2 = ⟨.ok none, (fed.1.advance fed.2).1, (fed.1.advance fed.2).2⟩ :=
      if_pos (ServerSweep.done_advance finished fed.2)
    change Nested _ _ (fed.1.pull fed.2) rest last later at further
    rw [ends] at further
    cases further with
    | ended =>
      refine ⟨rfl, ?_⟩
      exact (Course.names_advance fed.1.course fed.2).trans (names_of_loads loads server results)

/-- The base configuration of a model as it is, under the name without a number. -/
def Unchanged (r : Resources) (m : Model) (v : Variant) : Prop :=
  ∃ base w, (r.base m.name w).1 = .ok base ∧
    v = Variant.build (Names.baseline m.name) m [] base

theorem pull_baseline_of {r : Resources} {m : Model} {exit : Bool} {w : World} {v : Variant}
    (given : ((ServerSweep.of r m .baseline exit).pull w).result = .ok (some v)) :
    Unchanged r m v ∧ ((ServerSweep.of r m .baseline exit).pull w).world.names = w.names := by
  let s := (ServerSweep.of r m .baseline exit).start
  change (s.offer [] w).result = _ at given
  change _ ∧ (s.offer [] w).world.names = w.names
  have quiet : (s.offer [] w).world.names = w.names := by
    rcases ServerSweep.names_offer s [] w with same | same
    · exact same
    · rw [same, Names.name_baseline]
  refine ⟨?_, quiet⟩
  rcases ServerSweep.offer_sought (s := s) rfl [] w with
    ⟨fault, later, -, failed⟩ | ⟨base, later, found, gave⟩
  · rw [failed] at given
    cases given
  · rw [gave] at given
    cases given
    refine ⟨base, w, congrArg Prod.fst found, ?_⟩
    rw [Variant.derive, Names.name_baseline]
    rfl

theorem pull_remote_of {r : Resources} {m : Model} {exit : Bool} {w : World} {v : Variant}
    (given : ((ServerSweep.of r m .remote exit).pull w).result = .ok (some v)) :
    v.name = m.name ∧ ((ServerSweep.of r m .remote exit).pull w).world.names = w.names := by
  let s := (ServerSweep.of r m .remote exit).start
  change (s.offerRemote w).result = _ at given
  refine ⟨?_, (s.asked_offerRemote w).names⟩
  rcases s.offerRemote_asked w with ⟨fault, later, -, same⟩ | ⟨config, later, -, same⟩
  · rw [same] at given
    cases given
  · rw [same] at given
    cases given
    rfl

/-! ### The trials of a pass -/

end Search

/-- What tells trials apart: the name of the variant, the batch size and the concurrency. -/
def Probe.key (p : Probe) : String × UInt32 × UInt32 := (p.variant.name, p.load.key)

namespace Search

/-- What a probe says of its variant and its load, whatever its number is. -/
theorem map_numbered {β : Type} {f : Probe → β} {g : Variant → Load → β} {run : Uuid}
    {model : String} (same : ∀ n variant load, f ⟨run, n, model, variant, load⟩ = g variant load)
    (n : Nat) (line : List (Variant × Load × Batch)) :
    (numbered run model n line).map (fun e => f e.1) = line.map (fun x => g x.1 x.2.1) := by
  induction line generalizing n with
  | nil => rfl
  | cons x line ih => exact congrArg₂ List.cons (same n x.1 x.2.1) (ih (n + 1))

theorem loads_of_nested {σ : Type} [FiniteSource σ Variant] {p : Plan} {m : Model}
    {opened : List Variant} {pulled : Pulled σ Variant} {parts : Parts} {last : σ} {later : World}
    (nested : Nested (fun _ variant => LoadSweep.ofPlan p m variant.name) opened pulled parts last
      later) :
    ∀ part ∈ parts, part.2.map Prod.fst <+ (Course.rows (LoadSweep.ofPlan p m part.1.name)).items := by
  induction nested with
  | ended => exact fun _ member => nomatch member
  | variant variant loads _ ih =>
    intro part member
    rcases List.mem_cons.mp member with rfl | later
    · exact LoadSweep.sublist_of_plays loads
    · exact ih part later

/-- Trials of different variants differ in the name, and those of one variant in the load. -/
theorem nodup_keys {parts : Parts} (names : (parts.map (fun part => part.1.name)).Nodup)
    (loads : ∀ part ∈ parts, (part.2.map (fun tried => tried.1.key)).Nodup) :
    ((flat parts).map (fun x => (x.1.name, x.2.1.key))).Nodup := by
  rw [flat, List.map_flatMap, List.nodup_flatMap]
  refine ⟨?_, ?_⟩
  · intro part member
    rw [List.map_map]
    have apart := loads part member
    exact List.Nodup.of_map Prod.snd (by rw [List.map_map]; exact apart)
  · rw [List.Nodup, List.pairwise_map] at names
    refine names.imp ?_
    intro part part' different key first second
    simp only [List.map_map] at first second
    obtain ⟨_, -, rfl⟩ := List.mem_map.mp first
    obtain ⟨_, -, same⟩ := List.mem_map.mp second
    exact different (congrArg Prod.fst same).symm

end Search

/-- Whose pass a name belongs to: on a server that is managed elsewhere the model's own name, else
the one without a number or one with a number. -/
def Names.OfPass (p : Plan) (m : Model) (baselineOnly : Bool) (name : String) : Prop :=
  if p.launch = .remote then name = m.name
  else if baselineOnly then name = Names.baseline m.name
  else ∃ n, name = Names.numbered m.name n

namespace Search

/-- The trials of a pass: they differ, they have names of the pass, and the unchanged configuration
is what the first pass tries and no other. -/
structure Toured (r : Resources) (m : Model) (baselineOnly : Bool) (t : List (Probe × Batch)) :
    Prop where
  tried : t ≠ []
  apart : (t.map (fun e => e.1.key)).Nodup
  named : ∀ e ∈ t, Names.OfPass r.plan m baselineOnly e.1.variant.name
  tagged : r.plan.launch = .own → ∀ e ∈ t, e.1.variant.has .baseline = baselineOnly
  unchanged : r.plan.launch = .own → baselineOnly = true → ∀ e ∈ t, Unchanged r m e.1.variant

structure Offered (r : Resources) (m : Model) (baselineOnly : Bool) (variants : List Variant) :
    Prop where
  apart : (variants.map Variant.name).Nodup
  named : ∀ v ∈ variants, Names.OfPass r.plan m baselineOnly v.name
  tagged : r.plan.launch = .own → ∀ v ∈ variants, v.has .baseline = baselineOnly
  unchanged : r.plan.launch = .own → baselineOnly = true → ∀ v ∈ variants, Unchanged r m v

theorem offered_of_titled {r : Resources} {m : Model} (own : r.plan.launch = .own)
    {history : List Names.Call} {sets : List Overrides} {variants : List Variant}
    (nodup : sets.Nodup) (changed : ∀ o ∈ sets, o ≠ []) (asked : ∀ o ∈ sets, (m.name, o) ∈ history)
    (titled : List.Forall₂ (Titled m history) sets variants) : Offered r m false variants := by
  have each {v : Variant} (member : v ∈ variants) : ∃ o ∈ sets, Titled m history o v :=
    exists_of_mem_right titled member
  have names : variants.map Variant.name =
      sets.map (fun o => Names.title history (m.name, o)) := by
    clear nodup changed asked each
    induction titled with
    | nil => rfl
    | cons same _ ih =>
      obtain ⟨base, rfl⟩ := same
      rw [List.map_cons, List.map_cons, ih, Variant.name_build]
  refine ⟨?_, ?_, ?_, fun _ impossible => nomatch impossible⟩
  · rw [names]
    refine nodup.map_on ?_
    intro o member o' member' same
    exact (Prod.mk.inj ((Names.title_inj (asked o member) (asked o' member')).mp same)).2
  · intro v member
    obtain ⟨o, inside, base, rfl⟩ := each member
    have plain : o.isBaseline = false := List.isEmpty_eq_false_iff.mpr (changed o inside)
    rw [Variant.name_build, Names.OfPass, own, Names.title, plain]
    exact ⟨_, rfl⟩
  · intro _ v member
    obtain ⟨o, inside, base, rfl⟩ := each member
    rw [Variant.has_build]
    exact List.isEmpty_eq_false_iff.mpr (changed o inside)

theorem toured_of_offered {r : Resources} {m : Model} (distinct : m.Distinct)
    {baselineOnly : Bool} {parts : Parts} (offered : Offered r m baselineOnly (parts.map Prod.fst))
    (loads : ∀ part ∈ parts,
      part.2.map Prod.fst <+ (Course.rows (LoadSweep.ofPlan r.plan m part.1.name)).items)
    {run : Uuid} (tried : numbered run m.name 0 (flat parts) ≠ []) :
    Toured r m baselineOnly (numbered run m.name 0 (flat parts)) := by
  have variant {e : Probe × Batch} (member : e ∈ numbered run m.name 0 (flat parts)) :
      e.1.variant ∈ parts.map Prod.fst := by
    have inside : e.1.variant ∈ (flat parts).map Prod.fst := by
      rw [← map_numbered (f := Probe.variant) (fun _ _ _ => rfl) 0]
      exact List.mem_map_of_mem member
    obtain ⟨x, line, same⟩ := List.mem_map.mp inside
    obtain ⟨part, among, loaded⟩ := List.mem_flatMap.mp line
    obtain ⟨_, -, rfl⟩ := List.mem_map.mp loaded
    rw [← same]
    exact List.mem_map_of_mem among
  refine ⟨tried, ?_, fun e member => offered.named _ (variant member),
    fun own e member => offered.tagged own _ (variant member),
    fun own first e member => offered.unchanged own first _ (variant member)⟩
  rw [map_numbered (f := Probe.key) (g := fun variant load => (variant.name, load.key))
    (fun _ _ _ => rfl)]
  refine nodup_keys ?_ ?_
  · have apart := offered.apart
    rw [List.map_map] at apart
    exact apart
  · intro part member
    have keys := (loads part member).map Load.key
    rw [List.map_map] at keys
    exact (LoadSweep.nodup_ofPlan r.plan distinct part.1.name).sublist keys

theorem offered_of_unchanged {r : Resources} {m : Model} (own : r.plan.launch = .own) {v : Variant}
    (unchanged : Unchanged r m v) : Offered r m true [v] := by
  refine ⟨List.nodup_singleton _, ?_, ?_, ?_⟩
  all_goals
    intros
    rename_i v' member
    obtain rfl := List.mem_singleton.mp member
  · obtain ⟨base, w, -, rfl⟩ := unchanged
    rw [Variant.name_build, Names.OfPass, own]
    rfl
  · obtain ⟨base, w, -, rfl⟩ := unchanged
    exact Variant.has_build _ _ _ _
  · exact unchanged

theorem offered_of_remote {r : Resources} {m : Model} (remote : r.plan.launch = .remote)
    {v : Variant} (name : v.name = m.name) : Offered r m true [v] := by
  refine ⟨List.nodup_singleton _, ?_, ?_, ?_⟩
  · intro v' member
    obtain rfl := List.mem_singleton.mp member
    rw [Names.OfPass, remote]
    exact name
  · intro own
    cases own.symm.trans remote
  · intro own
    cases own.symm.trans remote

/-! ### A pass -/

end Search

theorem Strategy.ofPlan_pass {p : Plan} {baselineOnly : Bool} (pass : baselineOnly ∈ p.passes)
    (m : Model) :
    (p.launch = .remote ∧ baselineOnly = true ∧ ofPlan p m baselineOnly = .remote) ∨
    (p.launch = .own ∧ baselineOnly = true ∧ ofPlan p m baselineOnly = .baseline) ∨
    p.launch = .own ∧ baselineOnly = false ∧ (ofPlan p m baselineOnly).isAdaptive = true := by
  cases launch : p.launch with
  | remote =>
    left
    rw [Plan.passes, launch] at pass
    exact ⟨rfl, List.mem_singleton.mp pass, ofPlan_eq_remote.mpr launch⟩
  | own =>
    right
    cases baselineOnly with
    | true => exact .inl ⟨rfl, rfl, by simp [ofPlan, launch]⟩
    | false =>
      have swept : p.baselineOnly = false := by
        cases swept : p.baselineOnly with
        | false => rfl
        | true => simp [Plan.passes, swept] at pass
      refine .inr ⟨rfl, rfl, ?_⟩
      simp only [ofPlan, launch, swept, reduceCtorEq, Bool.or_self, Bool.false_eq_true, if_false]
      split <;> rfl

theorem Strategy.ne_nil_of_mem_ofPlan {p : Plan} {m : Model} {baselineOnly : Bool} {o : Overrides}
    (member : o ∈ (ofPlan p m baselineOnly).rows.items) : o ≠ [] := by
  revert member
  unfold ofPlan
  split
  · exact fun impossible => nomatch impossible
  · split
    · exact fun impossible => nomatch impossible
    · split
      · change o ∈ (Rows.ofBlocks Overrides.rowKey (Grid.choices m.axes)).items → _
        rw [Rows.items_ofBlocks]
        intro member
        simpa [Overrides.isBaseline] using (List.mem_filter.mp member).2
      · change o ∈ (Rows.table (Ladder.overrides m.cpuOnly) _ _).items → _
        rw [Rows.items_table]
        intro member
        obtain ⟨count, -, inside⟩ := List.mem_flatMap.mp member
        obtain ⟨size, -, rfl⟩ := List.mem_map.mp inside
        exact List.cons_ne_nil _ _

namespace Search

/-- A nested run of a pass offers variants of the pass, and its world knows their names. -/
theorem offered_of_nested {r : Resources} {m : Model} (sound : r.plan.Sound)
    (distinct : m.Distinct) (supplies : r.Supplies m) {baselineOnly : Bool}
    (pass : baselineOnly ∈ r.plan.passes) {w later : World} {past : List Names.Call}
    (recorded : Names.Recorded w.names past) {parts : Parts} {last : ServerSweep}
    (nested : Nested (fun _ variant => LoadSweep.ofPlan r.plan m variant.name) []
      ((ServerSweep.ofPlan r m baselineOnly w).1.pull (ServerSweep.ofPlan r m baselineOnly w).2)
      parts last later) :
    Offered r m baselineOnly (parts.map Prod.fst) ∧ ∃ past, Names.Recorded later.names past := by
  let server := ServerSweep.ofPlan r m baselineOnly w
  have opens : Opens server.1 := ServerSweep.opens_supplied
    (ServerSweep.supplied_of supplies baselineOnly (r.plan.serverEarlyExit m))
    (Strategy.rows_ofPlan_ne_nil sound m baselineOnly)
  have kind {strategy : Strategy} (same : Strategy.ofPlan r.plan m baselineOnly = strategy) :
      server.1 = ServerSweep.of r m strategy (r.plan.serverEarlyExit m) := by
    rw [← same]
    rfl
  have single (fixed : server.1.strategy.isAdaptive = false) :
      ∃ v, (server.1.pull server.2).result = .ok (some v) ∧
        parts.map Prod.fst = [v] ∧ later.names = (server.1.pull server.2).world.names := by
    obtain ⟨v, given⟩ := opens server.2
    exact ⟨v, given, nested_of_fixed fixed given nested⟩
  rcases Strategy.ofPlan_pass pass m with ⟨remote, rfl, same⟩ | ⟨own, rfl, same⟩ | ⟨own, rfl, walks⟩
  · rw [kind same] at single
    obtain ⟨v, given, variants, names⟩ := single rfl
    obtain ⟨name, quiet⟩ := pull_remote_of given
    rw [variants]
    refine ⟨offered_of_remote remote name, past, ?_⟩
    rw [names, quiet]
    exact recorded
  · rw [kind same] at single
    obtain ⟨v, given, variants, names⟩ := single rfl
    obtain ⟨unchanged, quiet⟩ := pull_baseline_of given
    rw [variants]
    refine ⟨offered_of_unchanged own unchanged, past, ?_⟩
    rw [names, quiet]
    exact recorded
  · obtain ⟨sets, among, titled, recorded⟩ :=
      titled_of_nested nested (s := server.1) (w := server.2) rfl ⟨rfl, rfl, walks⟩ recorded
    have fresh : server.1.course.turn.outstanding = false := rfl
    rw [show (server.1.advance server.2).1.course.rows = (Strategy.ofPlan r.plan m false).rows from
      congrArg Course.rows (Course.advance_of_settled fresh server.2)] at among
    refine ⟨offered_of_titled own ?_ ?_ ?_ titled, _, recorded⟩
    · exact (Strategy.nodup_ofPlan r.plan distinct false).sublist among
    · exact fun o member => Strategy.ne_nil_of_mem_ofPlan (among.subset member)
    · exact fun o member => List.mem_append_right _ (List.mem_map_of_mem member)

theorem toured_of_plays {r : Resources} {m : Model} (sound : r.plan.Sound)
    (distinct : m.Distinct) (supplies : r.Supplies m) {baselineOnly : Bool}
    (pass : baselineOnly ∈ r.plan.passes) {run : Uuid} {w later : World} {past : List Names.Call}
    (recorded : Names.Recorded w.names past) {t : List (Probe × Batch)} {last : ModelSearch}
    (play : Plays (Source.pull (ofPlan r m baselineOnly run w).1 (ofPlan r m baselineOnly run w).2)
      t last later) :
    Toured r m baselineOnly t ∧ ∃ past, Names.Recorded later.names past := by
  let start := ofPlan r m baselineOnly run w
  have supplied := ServerSweep.supplied_of supplies baselineOnly (r.plan.serverEarlyExit m)
  obtain ⟨d, answers⟩ := Driver.exists_answers t
  obtain ⟨parts, last', later', nested, play', answers'⟩ := composes start.1.server
    start.1.makeLoad m.name run d start.2 (ServerSweep.neverFails_supplied supplied)
  obtain ⟨rfl, rfl, rfl⟩ := plays_unique play play' answers answers'
  obtain ⟨offered, recorded⟩ := offered_of_nested sound distinct supplies pass recorded nested
  have tried := ne_nil_of_plays sound supplies play
  exact ⟨toured_of_offered distinct offered (loads_of_nested nested) tried, recorded⟩

/-! ### Runs -/

/-- Passes in turn, each driven to its end in the world that the one before leaves. -/
inductive Tours (r : Resources) (ids : Model × Bool → Uuid) :
    List (Model × Bool) → World → List (List (Probe × Batch)) → World → Prop where
  | nil (w : World) : Tours r ids [] w [] w
  | cons {pass : Model × Bool} {passes : List (Model × Bool)} {w mid later : World}
      {t : List (Probe × Batch)} {ts : List (List (Probe × Batch))} {last : ModelSearch}
      (play : Plays (Source.pull (ofPlan r pass.1 pass.2 (ids pass) w).1
        (ofPlan r pass.1 pass.2 (ids pass) w).2) t last mid)
      (further : Tours r ids passes mid ts later) : Tours r ids (pass :: passes) w (t :: ts) later

theorem exists_tours {r : Resources} {passes : List (Model × Bool)}
    (supplies : ∀ pass ∈ passes, r.Supplies pass.1) (ids : Model × Bool → Uuid)
    (d : Model × Bool → Driver Probe) (w : World) :
    ∃ ts later, Tours r ids passes w ts later ∧
      List.Forall₂ (fun pass t => (d pass).Answers [] t) passes ts := by
  induction passes generalizing w with
  | nil => exact ⟨[], w, .nil w, .nil⟩
  | cons pass passes ih =>
    let start := ofPlan r pass.1 pass.2 (ids pass) w
    have supplied := ServerSweep.supplied_of (supplies pass List.mem_cons_self) pass.2
      (r.plan.serverEarlyExit pass.1)
    obtain ⟨parts, last, mid, -, play, answers⟩ := composes start.1.server start.1.makeLoad
      pass.1.name (ids pass) (d pass) start.2 (ServerSweep.neverFails_supplied supplied)
    obtain ⟨ts, later, further, others⟩ :=
      ih (fun pass inside => supplies pass (List.mem_cons_of_mem _ inside)) mid
    exact ⟨_, later, .cons play further, .cons answers others⟩

theorem toured_of_tours {r : Resources} (sound : r.plan.Sound) {ids : Model × Bool → Uuid}
    {passes : List (Model × Bool)} {w later : World} {ts : List (List (Probe × Batch))}
    (tours : Tours r ids passes w ts later)
    (fine : ∀ pass ∈ passes, pass.1.Distinct ∧ r.Supplies pass.1 ∧ pass.2 ∈ r.plan.passes)
    {past : List Names.Call} (recorded : Names.Recorded w.names past) :
    List.Forall₂ (fun pass t => Toured r pass.1 pass.2 t) passes ts := by
  induction tours generalizing past with
  | nil w => exact .nil
  | @cons pass passes w mid later t ts last play further ih =>
    obtain ⟨distinct, supplies, own⟩ := fine pass List.mem_cons_self
    obtain ⟨toured, past, recorded⟩ := toured_of_plays sound distinct supplies own recorded play
    exact .cons toured (ih (fun pass inside => fine pass (List.mem_cons_of_mem _ inside)) recorded)

end Search

/-- The names of a pass tell the model and the pass. -/
theorem Names.ofPass_inj {p : Plan} {m m' : Model} {baselineOnly baselineOnly' : Bool}
    (pass : baselineOnly ∈ p.passes) (pass' : baselineOnly' ∈ p.passes) {name : String}
    (own : OfPass p m baselineOnly name) (own' : OfPass p m' baselineOnly' name) :
    m.name = m'.name ∧ baselineOnly = baselineOnly' := by
  unfold OfPass at own own'
  unfold Plan.passes at pass pass'
  cases launch : p.launch with
  | remote =>
    rw [launch] at own own' pass pass'
    exact ⟨own.symm.trans own', (List.mem_singleton.mp pass).trans (List.mem_singleton.mp pass').symm⟩
  | own =>
    rw [launch] at own own'
    cases baselineOnly <;> cases baselineOnly'
    · obtain ⟨n, rfl⟩ := own
      obtain ⟨n', same⟩ := own'
      exact ⟨(numbered_inj same).1, rfl⟩
    · obtain ⟨n, rfl⟩ := own
      exact absurd own'.symm (baseline_ne_numbered _ _ _)
    · obtain ⟨n, rfl⟩ := own'
      exact absurd own.symm (baseline_ne_numbered _ _ _)
    · exact ⟨baseline_inj (own.symm.trans own'), rfl⟩

theorem Names.eq_baseline_iff {p : Plan} (own : p.launch = .own) {m : Model} {baselineOnly : Bool}
    {name model : String} (named : OfPass p m baselineOnly name) :
    name = baseline model ↔ m.name = model ∧ baselineOnly = true := by
  rw [OfPass, own] at named
  cases baselineOnly with
  | true =>
    obtain rfl : name = baseline m.name := named
    exact ⟨fun same => ⟨baseline_inj same, rfl⟩, fun same => congrArg baseline same.1⟩
  | false =>
    obtain ⟨n, rfl⟩ := named
    exact ⟨fun same => absurd same.symm (baseline_ne_numbered _ _ _), fun same => nomatch same.2⟩

namespace Search

theorem nodup_of_toured {r : Resources} {passes : List (Model × Bool)}
    {ts : List (List (Probe × Batch))}
    (toured : List.Forall₂ (fun pass t => Toured r pass.1 pass.2 t) passes ts)
    (among : ∀ pass ∈ passes, pass.2 ∈ r.plan.passes)
    (apart : (passes.map (fun pass => (pass.1.name, pass.2))).Nodup) :
    (ts.flatten.map (fun e => e.1.key)).Nodup := by
  induction toured with
  | nil => exact List.nodup_nil
  | @cons pass t passes ts own others ih =>
    rw [List.map_cons, List.nodup_cons] at apart
    rw [List.flatten_cons, List.map_append, List.nodup_append]
    refine ⟨own.apart, ih (fun pass inside => among pass (List.mem_cons_of_mem _ inside)) apart.2, ?_⟩
    intro key first key' second same
    obtain ⟨e, member, rfl⟩ := List.mem_map.mp first
    obtain ⟨e', member', rfl⟩ := List.mem_map.mp second
    obtain ⟨t', tried, inside⟩ := List.mem_flatten.mp member'
    obtain ⟨pass', later, toured⟩ := exists_of_mem_right others tried
    have name : e.1.variant.name = e'.1.variant.name := congrArg Prod.fst same
    have named := toured.named e' inside
    rw [← name] at named
    obtain ⟨models, flags⟩ := Names.ofPass_inj (among pass List.mem_cons_self)
      (among pass' (List.mem_cons_of_mem _ later)) (own.named e member) named
    exact apart.1 (List.mem_map.mpr ⟨pass', later, Prod.ext models.symm flags.symm⟩)

theorem nodup_agenda {p : Plan} (names : (p.models.map Model.name).Nodup) :
    ((Bench.agenda p).map (fun pass => (pass.1.name, pass.2))).Nodup := by
  have product : (Bench.agenda p).map (fun pass => (pass.1.name, pass.2)) =
      p.models.map Model.name ×ˢ p.passes := by
    simp [Bench.agenda, SProd.sprod, List.product, List.map_flatMap, List.flatMap_map,
      Function.comp_def]
  rw [product]
  refine names.product ?_
  unfold Plan.passes
  split <;> decide

/-- A run over all passes of a plan without a fault, from any registry of names on, makes no trial
twice. On a server of its own the unchanged configuration of a model is what its first pass tries,
and no other pass has its name or its mark. -/
theorem profiled_once (r : Resources) (valid : r.plan.fault? = none)
    (names : (r.plan.models.map Model.name).Nodup) (distinct : ∀ m ∈ r.plan.models, m.Distinct)
    (supplies : ∀ m ∈ r.plan.models, r.Supplies m) (w : World) (past : List Names.Call)
    (recorded : Names.Recorded w.names past) (ids : Model × Bool → Uuid) :
    let agenda := Bench.agenda r.plan
    (∀ d : Model × Bool → Driver Probe, ∃ ts later, Tours r ids agenda w ts later ∧
      List.Forall₂ (fun pass t => (d pass).Answers [] t) agenda ts) ∧
    ∀ ts later, Tours r ids agenda w ts later →
      (ts.flatten.map (fun e => e.1.key)).Nodup ∧
      (r.plan.launch = .own → r.plan.passes.head? = some true ∧
        List.Forall₂ (fun (pass : Model × Bool) t =>
          (pass.2 = true → t ≠ [] ∧ ∀ e ∈ t, Unchanged r pass.1 e.1.variant) ∧
          ∀ e ∈ t, e.1.variant.has .baseline = pass.2 ∧ ∀ m ∈ r.plan.models,
            e.1.variant.name = Names.baseline m.name ↔ pass = (m, true)) agenda ts) := by
  intro agenda
  have sound := Plan.sound_of_fault? valid
  have among {pass : Model × Bool} (inside : pass ∈ agenda) :
      pass.1 ∈ r.plan.models ∧ pass.2 ∈ r.plan.passes := by
    obtain ⟨m, listed, passes⟩ := List.mem_flatMap.mp inside
    obtain ⟨flag, own, rfl⟩ := List.mem_map.mp passes
    exact ⟨listed, own⟩
  refine ⟨fun d => exists_tours (fun pass inside => supplies _ (among inside).1) ids d w, ?_⟩
  intro ts later tours
  have toured := toured_of_tours sound tours (fun pass inside =>
    ⟨distinct _ (among inside).1, supplies _ (among inside).1, (among inside).2⟩) recorded
  refine ⟨nodup_of_toured toured (fun pass inside => (among inside).2) (nodup_agenda names), ?_⟩
  intro own
  have first : r.plan.passes.head? = some true := by
    unfold Plan.passes
    split <;> rfl
  have each := (List.forall₂_and_left agenda ts).mpr ⟨fun pass inside => among inside, toured⟩
  refine ⟨first, each.imp ?_⟩
  rintro pass t ⟨⟨listed, -⟩, toured⟩
  refine ⟨fun first => ⟨toured.tried, toured.unchanged own first⟩, ?_⟩
  intro e member
  refine ⟨toured.tagged own e member, fun m among => ?_⟩
  rw [Names.eq_baseline_iff own (toured.named e member)]
  constructor
  · rintro ⟨same, flag⟩
    exact Prod.ext (List.inj_on_of_nodup_map names listed among same) flag
  · rintro rfl
    exact ⟨rfl, rfl⟩

def gridded : Model where
  name := "m_config_default"
  axes := [⟨"max_batch_size", [.word 4, .word 8]⟩, ⟨"backend", [.null, .text "onnx"]⟩]
  pins := { concurrencies := [4, 1], batchSizes := [1, 2] }

def mixed : Resources where
  plan := { batchSize := ⟨1, 2⟩, instances := ⟨1, 2⟩, models := [plain, gridded] }
  repository := Repository.ofConfigs [("m", []), ("m_config_default", [])]

theorem profiled_once_mixed :
    mixed.plan.fault? = none ∧ (mixed.plan.models.map Model.name).Nodup ∧
    (∀ m ∈ mixed.plan.models, m.Distinct) ∧ (∀ m ∈ mixed.plan.models, mixed.Supplies m) ∧
    Names.Recorded ({} : World).names [] ∧
    Bench.agenda mixed.plan = [(plain, true), (plain, false), (gridded, true), (gridded, false)] ∧
    ∃ ts later, Tours mixed (fun _ => ⟨0⟩) (Bench.agenda mixed.plan) {} ts later ∧
      ts.length = 4 ∧ (ts.flatten.map (fun e => e.1.key)).Nodup := by
  have valid : mixed.plan.fault? = none := by decide +kernel
  have names : (mixed.plan.models.map Model.name).Nodup := by decide
  have distinct : ∀ m ∈ mixed.plan.models, m.Distinct := by
    intro m listed
    rcases List.mem_cons.mp listed with rfl | listed
    · exact ⟨by decide, by decide, by decide, by decide⟩
    · obtain rfl := List.mem_singleton.mp listed
      exact ⟨by decide, by decide, by decide, by decide⟩
  have supplies : ∀ m ∈ mixed.plan.models, mixed.Supplies m := by
    intro m listed
    have found : mixed.repository mixed.plan.repository m.name = .ok [] := by
      rcases List.mem_cons.mp listed with rfl | listed
      · decide +kernel
      · obtain rfl := List.mem_singleton.mp listed
        decide +kernel
    exact ⟨fun _ => Resources.resolves_of_found found, fun remote => nomatch remote⟩
  have recorded : Names.Recorded ({} : World).names [] := Names.recorded_empty
  obtain ⟨runs, apart⟩ :=
    profiled_once mixed valid names distinct supplies {} [] recorded (fun _ => ⟨0⟩)
  obtain ⟨ts, later, tours, answers⟩ := runs (fun _ _ _ => [none])
  have passes : Bench.agenda mixed.plan =
      [(plain, true), (plain, false), (gridded, true), (gridded, false)] := by decide
  have length := answers.length_eq
  rw [passes] at length
  exact ⟨valid, names, distinct, supplies, recorded, passes, ts, later, tours, length.symm,
    (apart ts later tours).1⟩

end Search
end ServingSweep
