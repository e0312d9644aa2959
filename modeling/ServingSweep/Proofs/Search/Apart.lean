import Mathlib.Logic.Function.Basic
import ServingSweep.Proofs.Search.Moves
import ServingSweep.Proofs.Search.Passes
import ServingSweep.Proofs.Sweep.Asks
import ServingSweep.Proofs.Sweep.Turns
import ServingSweep.Proofs.Sweep.Worlds

/-!
Searches that share a world. Each pull of a search takes from the world only the names of its own
model (`twin_pull`) and leaves those of other models alone (`continues_pull`), so by `apart` a
search among others comes to what it comes to alone, however their calls are interleaved.
-/

namespace ServingSweep
open Source

def Probe.mapRun (f : Uuid → Uuid) (p : Probe) : Probe := { p with run := f p.run }

def Source.Deed.mapRun (f : Uuid → Uuid) : Deed Probe → Deed Probe
  | .pulled result => .pulled (result.map (Option.map (Probe.mapRun f)))
  | .fed batch => .fed batch

theorem Source.Deed.mapRun_id (deed : Deed Probe) : deed.mapRun id = deed := by
  rcases deed with (fault | _ | probe) | batch <;> rfl

namespace Search

def mapRun {σ τ : Type} (f : Uuid → Uuid) (s : Search σ τ) : Search σ τ := { s with run := f s.run }

/-! ### One pull -/

/-- A pull leaves the server sweep for the same, and the names of other models alone. -/
theorem continues_pull (s : ModelSearch) (w : World) :
    s.server.Continues (Source.pull s w).source.server ∧
      ∀ other, other ≠ s.server.model.name →
        (Source.pull s w).world.names.listed other = w.names.listed other := by
  let Onward (server : ServerSweep) (later : World) : Prop := s.server.Continues server ∧
    ∀ other, other ≠ s.server.model.name → later.names.listed other = w.names.listed other
  have pulled {t : ModelSearch} {later : World} (onward : Onward t.server later) :
      Onward (Source.pull t.server later).source (Source.pull t.server later).world := by
    obtain ⟨continues, names⟩ := onward
    refine ⟨continues.trans (t.server.continues_pull later), ?_⟩
    intro other foreign
    rw [← names other foreign]
    exact t.server.listed_pull later (by rw [continues.model]; exact foreign)
  have loaded {t : ModelSearch} {later : World} (onward : Onward t.server later)
      (sweep : LoadSweep) : Onward t.server (Source.pull sweep later).world := by
    refine ⟨onward.1, ?_⟩
    rw [show (Source.pull sweep later).world.names = later.names from sweep.names_pull later]
    exact onward.2
  refine pull_rule (I := fun t later => Onward t.server later)
    (P := fun p => Onward p.source.server p.world) ?_ ?_ ⟨.refl _, fun _ _ => rfl⟩
  · intro t later t' later' onward pass
    cases pass with
    | closes current ended =>
      obtain ⟨⟨model, resources, strategy⟩, names⟩ := loaded onward _
      exact ⟨⟨model, resources, strategy⟩, names⟩
    | opens idle given => exact pulled onward
  · intro t later p onward stops
    cases stops with
    | gives current given => exact loaded onward _
    | loadFails current failed => exact loaded onward _
    | serverFails idle failed => exact pulled onward
    | serverEnds idle ended => exact pulled onward

/-- Two pulls come to the same but for the ids of their runs, and leave worlds that are alike to a
model. -/
structure Twin (model : String) (f : Uuid → Uuid) (p p' : Pulled ModelSearch Probe) : Prop where
  result : p'.result = p.result.map (Option.map (Probe.mapRun f))
  source : p'.source = p.source.mapRun f
  world : p.world.Like model p'.world

theorem like_load {model : String} {w w' : World} (like : w.Like model w') (sweep : LoadSweep) :
    (Source.pull sweep w).Like model (Source.pull sweep w') := by
  obtain ⟨result, source⟩ := sweep.pull_elsewhere w w'
  refine ⟨result, source, ?_⟩
  change (sweep.pull w).world.names.listed model = (sweep.pull w').world.names.listed model
  rw [sweep.names_pull w, sweep.names_pull w']
  exact like

/-- A pull takes nothing from its world but the names of its own model. -/
theorem twin_steps {s : ModelSearch} (steady : s.server.resources.Steady) {w w' : World}
    (like : w.Like s.server.model.name w') (f : Uuid → Uuid) :
    Twin s.server.model.name f (s.steps w) ((s.mapRun f).steps w') := by
  let name := s.server.model.name
  -- Within the pull the other search stands at the same place, in a world that is alike.
  let Beside (t : ModelSearch) (later : World) : Prop := t.server.model.name = name ∧
    t.server.resources.Steady ∧
    ∃ later', later.Like name later' ∧ (s.mapRun f).steps w' = (t.mapRun f).steps later'
  refine steps_rule (I := Beside) (P := fun p => Twin name f p ((s.mapRun f).steps w'))
    ?_ ?_ ⟨rfl, steady, w', like, rfl⟩
  · rintro t later t₁ later₁ ⟨model, steady, later', like, same⟩ pass
    cases pass with
    | @closes variant sweep current ended =>
      have twin := like_load like sweep
      have pass' := Pass.closes (s := t.mapRun f) (w := later') current
        (twin.result.symm.trans ended)
      refine ⟨model, steady, ((t.mapRun f).close variant (Source.pull sweep later').source
        (Source.pull sweep later').world).2, twin.world,
        same.trans ((steps_of_pass pass').trans ?_)⟩
      rw [← twin.source]
      rfl
    | @opens variant idle given =>
      have continues := t.server.continues_pull later
      have twin : (Source.pull t.server later).Like name (Source.pull t.server later') := by
        rw [← model] at like ⊢
        exact ServerSweep.like_pull steady like
      have pass' := Pass.opens (s := t.mapRun f) (w := later') idle
        (twin.result.symm.trans given)
      refine ⟨(congrArg Model.name continues.model).trans model, ?_,
        (Source.pull t.server later').world.say (.profiling variant.name), twin.world,
        same.trans ((steps_of_pass pass').trans ?_)⟩
      · change (Source.pull t.server later).source.resources.Steady
        rw [show (Source.pull t.server later).source.resources = _ from continues.resources]
        exact steady
      · exact congrArg (fun server => Search.steps { t.mapRun f with
          server := server
          current := some (variant, t.makeLoad t.opened variant)
          opened := variant :: t.opened }
            ((Source.pull t.server later').world.say (.profiling variant.name))) twin.source.symm
  · rintro t later p ⟨model, steady, later', like, same⟩ stops
    rw [same]
    have twinServer : (Source.pull t.server later).Like name (Source.pull t.server later') := by
      rw [← model] at like ⊢
      exact ServerSweep.like_pull steady like
    cases stops with
    | @gives variant sweep load current given =>
      have twin := like_load like sweep
      rw [steps_of_stops (Stops.gives (s := t.mapRun f) current (twin.result.symm.trans given)),
        ← twin.source]
      exact ⟨rfl, rfl, twin.world⟩
    | @loadFails variant sweep fault current failed =>
      have twin := like_load like sweep
      rw [steps_of_stops (Stops.loadFails (s := t.mapRun f) current
        (twin.result.symm.trans failed)), ← twin.source]
      exact ⟨rfl, rfl, twin.world⟩
    | serverFails idle failed =>
      rw [steps_of_stops (Stops.serverFails (s := t.mapRun f) idle
        (twinServer.result.symm.trans failed))]
      exact ⟨rfl, congrArg (fun server => { t.mapRun f with server := server })
        twinServer.source.symm, twinServer.world⟩
    | serverEnds idle ended =>
      rw [steps_of_stops (Stops.serverEnds (s := t.mapRun f) idle
        (twinServer.result.symm.trans ended))]
      exact ⟨rfl, congrArg (fun server => { t.mapRun f with server := server })
        twinServer.source.symm, twinServer.world⟩

theorem twin_pull {s : ModelSearch} (steady : s.server.resources.Steady) {w w' : World}
    (like : w.Like s.server.model.name w') (f : Uuid → Uuid) :
    Twin s.server.model.name f (Source.pull s w) (Source.pull (s.mapRun f) w') :=
  let heard (later : World) : World := later.sayAll (s.turn.pullEvents s.model)
  have still : (heard w).Like s.server.model.name (heard w') := like
  twin_steps (s := { s with turn := s.turn.pulled.start }) steady still f

theorem names_feed (s : ModelSearch) (batch : Batch) (w : World) :
    (Source.feed s batch w).2.names = w.names := by
  change (s.feed batch w).2.names = w.names
  unfold feed
  dsimp only
  cases s.current <;> rfl

theorem feed_mapRun (s : ModelSearch) (f : Uuid → Uuid) (batch : Batch) (w w' : World) :
    (Source.feed (s.mapRun f) batch w').1 = (Source.feed s batch w).1.mapRun f := by
  change ((s.mapRun f).feed batch w').1 = (s.feed batch w).1.mapRun f
  have current : (s.mapRun f).current = s.current := rfl
  unfold feed
  dsimp only
  rw [current]
  cases s.current <;> rfl

theorem server_feed (s : ModelSearch) (batch : Batch) (w : World) :
    (Source.feed s batch w).1.server = s.server := by
  change (s.feed batch w).1.server = s.server
  obtain ⟨_, same⟩ := feed_eq s batch w
  rw [same]

/-! ### Calls of one search -/

/-- A call leaves the names of other models alone. -/
theorem listed_ask (d : Driven ModelSearch Probe) (call : Ask) {other : String}
    (foreign : other ≠ d.source.server.model.name) :
    (d.ask call).world.names.listed other = d.world.names.listed other := by
  cases call with
  | pull => exact (continues_pull d.source d.world).2 other foreign
  | feed batch => exact congrArg (·.listed other) (names_feed d.source batch d.world)

structure Mirrors (model : String) (f : Uuid → Uuid) (d d' : Driven ModelSearch Probe) : Prop where
  named : d.source.server.model.name = model
  steady : d.source.server.resources.Steady
  source : d'.source = d.source.mapRun f
  past : d'.past = d.past.map (Deed.mapRun f)
  world : d.world.Like model d'.world

theorem mirrors_ask {model : String} {f : Uuid → Uuid} {d d' : Driven ModelSearch Probe}
    (mirrors : Mirrors model f d d') (call : Ask) : Mirrors model f (d.ask call) (d'.ask call) := by
  obtain ⟨rfl, steady, source, past, like⟩ := mirrors
  obtain ⟨s', w', past'⟩ := d'
  obtain rfl : s' = d.source.mapRun f := source
  obtain rfl : past' = d.past.map (Deed.mapRun f) := past
  cases call with
  | pull =>
    have continues := (continues_pull d.source d.world).1
    have twin := twin_pull steady like f
    refine ⟨congrArg Model.name continues.model, ?_, twin.source, ?_, twin.world⟩
    · change (Source.pull d.source d.world).source.server.resources.Steady
      rw [continues.resources]
      exact steady
    · exact congrArg (fun result => Deed.pulled result :: d.past.map (Deed.mapRun f)) twin.result
  | feed batch =>
    have server := server_feed d.source batch d.world
    refine ⟨congrArg (·.model.name) server, ?_, feed_mapRun d.source f batch d.world w', rfl, ?_⟩
    · change (Source.feed d.source batch d.world).1.server.resources.Steady
      rw [server]
      exact steady
    · change (Source.feed d.source batch d.world).2.names.listed _ =
        (Source.feed (d.source.mapRun f) batch w').2.names.listed _
      rw [names_feed, names_feed]
      exact like

/-! ### Searches in one world -/

/-- Searches in one world, each with what was done to it, the last deed first. -/
structure Shared (ι : Type) where
  searches : ι → ModelSearch
  world : World
  pasts : ι → List (Deed Probe) := fun _ => []

namespace Shared
variable {ι : Type} [DecidableEq ι]

def member (g : Shared ι) (i : ι) : Driven ModelSearch Probe := ⟨g.searches i, g.world, g.pasts i⟩

def ask (g : Shared ι) (call : ι × Ask) : Shared ι :=
  let asked := (g.member call.1).ask call.2
  { searches := Function.update g.searches call.1 asked.source
    world := asked.world
    pasts := Function.update g.pasts call.1 asked.past }

def asks (g : Shared ι) (calls : List (ι × Ask)) : Shared ι := calls.foldl ask g

def own (i : ι) (calls : List (ι × Ask)) : List Ask := (calls.filter (·.1 = i)).map Prod.snd

theorem member_ask_self (g : Shared ι) (i : ι) (call : Ask) :
    (g.ask (i, call)).member i = (g.member i).ask call := by
  simp only [member, ask, Function.update_self]

theorem member_ask_ne (g : Shared ι) {i j : ι} (other : j ≠ i) (call : Ask) :
    (g.ask (i, call)).member j = { g.member j with world := (g.ask (i, call)).world } := by
  simp only [member, ask, Function.update_of_ne other]

/-- Whatever is asked of the searches, each goes as one that is asked only what is its own. -/
theorem mirrors_asks {name : ι → String} (distinct : ∀ i j, name i = name j → i = j)
    {f : ι → Uuid → Uuid} {g : Shared ι} {alone : ι → Driven ModelSearch Probe}
    (initial : ∀ i, Mirrors (name i) (f i) (g.member i) (alone i)) (calls : List (ι × Ask))
    (i : ι) : Mirrors (name i) (f i) ((g.asks calls).member i) ((alone i).asks (own i calls)) := by
  induction calls generalizing g alone with
  | nil => exact initial i
  | cons call calls ih =>
    obtain ⟨j, call⟩ := call
    have next : ∀ k, Mirrors (name k) (f k) ((g.ask (j, call)).member k)
        (if k = j then (alone k).ask call else alone k) := by
      intro k
      by_cases same : k = j
      · subst same
        rw [if_pos rfl, member_ask_self]
        exact mirrors_ask (initial k) call
      · obtain ⟨model, steady, source, past, like⟩ := initial k
        rw [if_neg same, member_ask_ne g same]
        refine ⟨model, steady, source, past, Eq.trans ?_ like⟩
        refine listed_ask (g.member j) call (fun equal => same (distinct k j ?_))
        rw [equal]
        exact (initial j).named
    have run := ih next
    by_cases same : j = i
    · subst same
      rw [if_pos rfl] at run
      simpa [asks, own, Driven.asks] using run
    · rw [if_neg (Ne.symm same)] at run
      simpa [asks, own, same, Driven.asks] using run

end Shared

section
variable {ι : Type} [DecidableEq ι]

def Shared.ofPlan (r : Resources) (models : ι → Model) (baselineOnly : ι → Bool) (runs : ι → Uuid)
    (w : World) : Shared ι where
  searches i := (Search.ofPlan r (models i) (baselineOnly i) (runs i) w).1
  world := w

/-- Searches of different models in one world do not interfere. Whatever is asked of them in
whatever order, each is in the end the search that it would be alone in a new world after its own
calls, and these have come to the same, up to the id of its run; so what is asked of the others
never matters to it. -/
theorem apart (r : Resources) (models : ι → Model) (baselineOnly : ι → Bool) (runs runs' : ι → Uuid)
    (w : World) (steady : r.Steady)
    (distinct : ∀ i j, (models i).name = (models j).name → i = j)
    (fresh : ∀ i, w.names.listed (models i).name = []) (calls : List (ι × Ask)) (i : ι) :
    let shared := Shared.ofPlan r models baselineOnly runs w
    let alone : Driven ModelSearch Probe :=
      (Driven.start (ofPlan r (models i) (baselineOnly i) (runs' i) {})).asks (Shared.own i calls)
    alone.source = ((shared.asks calls).searches i).mapRun (fun _ => runs' i) ∧
      alone.past = ((shared.asks calls).pasts i).map (Deed.mapRun (fun _ => runs' i)) ∧
      ∀ others, Shared.own i others = Shared.own i calls →
        (shared.asks others).searches i = (shared.asks calls).searches i ∧
          (shared.asks others).pasts i = (shared.asks calls).pasts i := by
  intro shared alone
  have begins (f : ι → Uuid → Uuid) (j : ι) : Mirrors (models j).name (f j) (shared.member j)
      (Driven.start (ofPlan r (models j) (baselineOnly j) (f j (runs j)) {})) :=
    ⟨rfl, steady, rfl, rfl, fresh j⟩
  have away := Shared.mirrors_asks distinct (begins (fun j _ => runs' j)) calls i
  refine ⟨away.source, away.past, ?_⟩
  intro others same
  have here := Shared.mirrors_asks distinct (begins (fun _ => id)) calls i
  have there := Shared.mirrors_asks distinct (begins (fun _ => id)) others i
  have plain : Deed.mapRun id = id := funext Deed.mapRun_id
  rw [same] at there
  refine ⟨there.source.symm.trans here.source, ?_⟩
  have pasts := there.past.symm.trans here.past
  rwa [plain, List.map_id, List.map_id] at pasts

end

/-- A model that the repository lacks, and one that has the name of a variant of it. -/
def namesakes : Bool → Model
  | true => { name := "m", pins := { concurrencies := [1, 2] } }
  | false => { name := "m_config_0" }

def unmoved : Resources where
  plan := { earlyExit := true, concurrency := ⟨1, 2⟩, batchSize := ⟨1, 2⟩, instances := ⟨1, 1⟩ }
  repository := Repository.ofConfigs [("m_config_0", [])]
  client := some
    { load := fun _ _ => .ok ()
      unload := fun _ _ => .ok ()
      config := fun _ _ _ => .ok [("backend", .text "onnx")] }

/-- One request at a time is worth 1.0 to the first search; nothing is measured in the second. -/
def interleaved : List (Bool × Ask) :=
  let slow : Batch := [some ⟨[("perf_throughput", ⟨0x3ff0000000000000⟩)]⟩]
  [(true, .pull), (false, .pull), (true, .feed slow), (false, .feed [none]), (false, .pull),
    (true, .pull), (true, .feed [none]), (true, .pull)]

theorem apart_namesakes :
    unmoved.Steady ∧ (∀ i j, (namesakes i).name = (namesakes j).name → i = j) ∧
    (∀ i, ({} : World).names.listed (namesakes i).name = []) ∧
    let shared := Shared.ofPlan unmoved namesakes (fun _ => false) (fun _ => ⟨0⟩) {}
    let alone : Driven ModelSearch Probe :=
      (Driven.start (ofPlan unmoved (namesakes true) false ⟨1⟩ {})).asks
        (Shared.own true interleaved)
    alone.past = ((shared.asks interleaved).pasts true).map (Deed.mapRun (fun _ => ⟨1⟩)) ∧
    (Deed.given ((shared.asks interleaved).pasts true)).map (·.variant.name) =
      ["m_config_0", "m_config_0", "m_config_1"] ∧
    (Deed.given ((shared.asks interleaved).pasts false)).map (·.variant.name) =
      ["m_config_0_config_0"] := by
  have steady : unmoved.Steady := by
    intro client held
    cases held
    exact ⟨fun _ _ _ => rfl, fun _ _ _ => rfl, fun _ _ _ _ => rfl⟩
  have distinct : ∀ i j, (namesakes i).name = (namesakes j).name → i = j := by decide
  have fresh : ∀ i, ({} : World).names.listed (namesakes i).name = [] := fun _ => rfl
  refine ⟨steady, distinct, fresh, ?_, by decide +kernel, by decide +kernel⟩
  exact (apart unmoved namesakes (fun _ => false) (fun _ => ⟨0⟩) (fun _ => ⟨1⟩) {} steady distinct
    fresh interleaved true).2.1

end Search
end ServingSweep
