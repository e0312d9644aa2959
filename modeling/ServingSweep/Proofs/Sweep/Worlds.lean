import Mathlib.Logic.Relation
import ServingSweep.Proofs.Control.Blocks
import ServingSweep.Proofs.Sweep.Walk
import ServingSweep.ServerSweep

/-!
What a sweep does with its world. A course only reports to it; a server sweep also asks the server
and names variants (`world_pull`), but leaves the names of other models alone (`listed_pull`). By
`like_pull` it takes nothing from the world but the names of its own model and what the server
answers.
-/

namespace ServingSweep
open Source

namespace Course
variable {α : Type}

theorem advance_elsewhere (c : Course α) (w w' : World) : (c.advance w).1 = (c.advance w').1 := by
  obtain ⟨_, _, _, same⟩ := c.advance_eq
  rw [same, same]

theorem calls_advance (c : Course α) (w : World) : (c.advance w).2.calls = w.calls := by
  obtain ⟨_, _, _, same⟩ := c.advance_eq
  rw [same]
  rfl

theorem pull_elsewhere (c : Course α) (w w' : World) :
    (c.pull w).result = (c.pull w').result ∧ (c.pull w).source = (c.pull w').source := by
  unfold pull
  dsimp only
  rw [advance_elsewhere c w w']
  split
  · exact ⟨rfl, rfl⟩
  · exact ⟨rfl, rfl⟩

theorem calls_pull (c : Course α) (w : World) : (c.pull w).world.calls = w.calls := by
  rw [world_pull]
  exact calls_advance c w

end Course

/-! ### Questions to a server -/

inductive Event.OfQuestion : Event → Prop where
  | askingServer (model repository : String) : OfQuestion (.askingServer model repository)
  | configReported (model : String) : OfQuestion (.configReported model)
  | unloadFailed (model : String) (fault : ControlFault) : OfQuestion (.unloadFailed model fault)
  | usingReported (model : String) : OfQuestion (.usingReported model)

inductive World.Asks (client : Option Client) : World → World → Prop where
  | called {c : Client} (held : client = some c) (w : World) (call : Call) :
      Asks client w (c.noted w call)
  | said (w : World) {e : Event} (told : e.OfQuestion) : Asks client w (w.say e)

abbrev World.Asked (client : Option Client) : World → World → Prop :=
  Relation.ReflTransGen (World.Asks client)

theorem World.Asked.names {client : Option Client} {w w' : World} (asked : World.Asked client w w') :
    w'.names = w.names := by
  induction asked with
  | refl => rfl
  | tail _ step same =>
    cases step with
    | called held w call => exact same
    | said w told => exact same

namespace Client

theorem asked_noted (c : Client) (w : World) (call : Call) :
    World.Asked (some c) w (c.noted w call) := .single (.called rfl w call)

theorem asked_asking (c : Client) (model : String) (retries : UInt32) (w : World) :
    World.Asked (some c) w (c.asking model retries w).2 := by
  have called := c.asked_noted w (.config model retries)
  unfold asking
  dsimp only
  split
  · exact called
  · exact called.tail (.said _ (.configReported model))

theorem asked_settle (c : Client) (model : String) (answer : Except ControlFault Config)
    (unloaded : Except ControlFault Unit) (w : World) :
    World.Asked (some c) w (settle model answer unloaded w).2 := by
  unfold settle
  split
  · exact .refl
  · exact .refl
  · exact .refl
  · exact .single (.said w (.unloadFailed model _))

theorem asked_fetch (c : Client) (model : String) (retries : UInt32) (reload : Bool) (w : World) :
    World.Asked (some c) w (c.fetch model retries reload w).2 := by
  unfold fetch
  split
  · have loaded := c.asked_noted w (.load model)
    unfold fetchLoaded loading
    dsimp only
    cases c.load w.calls model with
    | error fault => exact loaded
    | ok _ =>
      have asked := c.asked_asking model retries (c.noted w (.load model))
      have unloaded := c.asked_noted (c.asking model retries (c.noted w (.load model))).2
        (.unload model)
      exact ((loaded.trans asked).trans unloaded).trans (c.asked_settle model _ _ _)
  · exact c.asked_asking model retries w

end Client

namespace Resources

theorem asked_askServer (r : Resources) (model : String) (reload : Bool) (w : World) :
    World.Asked r.client w (r.askServer model reload w).2 := by
  unfold askServer
  split
  · exact .refl
  · next client held =>
    rw [held]
    exact client.asked_fetch model r.plan.retries reload w

theorem asked_base (r : Resources) (model : String) (w : World) :
    World.Asked r.client w (r.base model w).2 := by
  unfold base
  split
  · exact .refl
  · split
    · exact .head (.said w (.askingServer model r.plan.repository)) (r.asked_askServer model true _)
    · exact .refl
  · exact .refl

end Resources

/-! ### Worlds that are alike to a model -/

def World.Like (model : String) (w w' : World) : Prop :=
  w.names.listed model = w'.names.listed model

/-- Two pulls come to the same and leave worlds that are alike to a model. -/
structure Pulled.Like {σ α : Type} (model : String) (p p' : Pulled σ α) : Prop where
  result : p.result = p'.result
  source : p.source = p'.source
  world : p.world.Like model p'.world

theorem Journal.toList_inj {α : Type} {j j' : Journal α} (same : j.toList = j'.toList) :
    j = j' := by
  cases j
  cases j'
  exact congrArg _ (List.reverse_injective same)

theorem Names.name_like {names names' : Names} {base : String}
    (like : names.listed base = names'.listed base) (o : Overrides) :
    (names.name base o).1 = (names'.name base o).1 ∧
      (names.name base o).2.listed base = (names'.name base o).2.listed base := by
  have known : names.known base = names'.known base := Journal.toList_inj like
  unfold name
  split
  · exact ⟨rfl, like⟩
  · rw [known]
    dsimp only
    split
    · exact ⟨rfl, like⟩
    · refine ⟨rfl, ?_⟩
      rw [listed_insert, listed_insert, if_pos rfl, if_pos rfl]

theorem Variant.derive_like {w w' : World} {m : Model} (like : w.Like m.name w') (o : Overrides)
    (base : Config) :
    (derive m o base w).1 = (derive m o base w').1 ∧
      (derive m o base w).2.Like m.name (derive m o base w').2 := by
  obtain ⟨name, names⟩ := Names.name_like like o
  exact ⟨congrArg (fun name => build name m o base) name, names⟩

/-! ### Answers after related calls -/

/-- The answers of a server do not depend on the calls before. -/
structure Client.Steady (c : Client) : Prop where
  load : ∀ before before' model, c.load before model = c.load before' model
  unload : ∀ before before' model, c.unload before model = c.unload before' model
  config : ∀ before before' model retries,
    c.config before model retries = c.config before' model retries

def Resources.Steady (r : Resources) : Prop := ∀ client, r.client = some client → client.Steady

/-- A server gives the same answers after related calls, and one call more leaves them related. -/
structure Client.Respects (c : Client) (R : List Call → List Call → Prop) : Prop where
  load : ∀ {before before'}, R before before' → ∀ model, c.load before model = c.load before' model
  unload : ∀ {before before'}, R before before' → ∀ model,
    c.unload before model = c.unload before' model
  config : ∀ {before before'}, R before before' → ∀ model retries,
    c.config before model retries = c.config before' model retries
  grows : ∀ {before before'}, R before before' → ∀ call, R (before ++ [call]) (before' ++ [call])

namespace Client
variable {c : Client} {R : List Call → List Call → Prop} {w w' : World}

theorem respects_eq (c : Client) : c.Respects Eq where
  load same _ := by rw [same]
  unload same _ := by rw [same]
  config same _ _ := by rw [same]
  grows same _ := by rw [same]

theorem Steady.respects (steady : c.Steady) : c.Respects (fun _ _ => True) where
  load _ := steady.load _ _
  unload _ := steady.unload _ _
  config _ := steady.config _ _
  grows _ _ := trivial

theorem asking_alike (respects : c.Respects R) (model : String) (retries : UInt32)
    (alike : R w.calls w'.calls) :
    (c.asking model retries w).1 = (c.asking model retries w').1 ∧
      R (c.asking model retries w).2.calls (c.asking model retries w').2.calls := by
  have noted := respects.grows alike (.config model retries)
  unfold asking
  dsimp only
  rw [respects.config alike]
  split
  · exact ⟨rfl, noted⟩
  · exact ⟨rfl, noted⟩

theorem settle_elsewhere (model : String) (answer : Except ControlFault Config)
    (unloaded : Except ControlFault Unit) (w w' : World) :
    (settle model answer unloaded w).1 = (settle model answer unloaded w').1 := by
  unfold settle
  split <;> rfl

theorem fetch_alike (respects : c.Respects R) (model : String) (retries : UInt32) (reload : Bool)
    (alike : R w.calls w'.calls) :
    (c.fetch model retries reload w).1 = (c.fetch model retries reload w').1 ∧
      R (c.fetch model retries reload w).2.calls (c.fetch model retries reload w').2.calls := by
  unfold fetch
  split
  · have loaded : R (c.noted w (.load model)).calls (c.noted w' (.load model)).calls :=
      respects.grows alike _
    obtain ⟨answer, asked⟩ := asking_alike respects model retries loaded
    have unloaded := respects.grows asked (.unload model)
    unfold fetchLoaded loading unloading
    dsimp only
    rw [respects.load alike]
    cases c.load w'.calls model with
    | error fault => exact ⟨rfl, loaded⟩
    | ok _ =>
      dsimp only
      rw [answer, respects.unload asked, (settle_eq _ _ _ _).1, (settle_eq _ _ _ _).1]
      exact ⟨settle_elsewhere _ _ _ _ _, unloaded⟩
  · exact asking_alike respects model retries alike

end Client

namespace Resources
variable {r : Resources} {R : List Call → List Call → Prop} {w w' : World}

def Respects (r : Resources) (R : List Call → List Call → Prop) : Prop :=
  ∀ client, r.client = some client → client.Respects R

theorem respects_eq (r : Resources) : r.Respects Eq := fun client _ => client.respects_eq

theorem Steady.respects (steady : r.Steady) : r.Respects (fun _ _ => True) :=
  fun client held => (steady client held).respects

theorem askServer_alike (respects : r.Respects R) (model : String) (reload : Bool)
    (alike : R w.calls w'.calls) :
    (r.askServer model reload w).1 = (r.askServer model reload w').1 ∧
      R (r.askServer model reload w).2.calls (r.askServer model reload w').2.calls := by
  unfold askServer
  split
  · exact ⟨rfl, alike⟩
  · next client held =>
    obtain ⟨answer, asked⟩ :=
      Client.fetch_alike (respects client held) model r.plan.retries reload alike
    exact ⟨congrArg (Except.mapError Fault.control) answer, asked⟩

theorem base_alike (respects : r.Respects R) (model : String) (alike : R w.calls w'.calls) :
    (r.base model w).1 = (r.base model w').1 ∧
      R (r.base model w).2.calls (r.base model w').2.calls := by
  unfold base
  split
  · exact ⟨rfl, alike⟩
  · split
    · exact askServer_alike respects model true alike
    · exact ⟨rfl, alike⟩
  · exact ⟨rfl, alike⟩

end Resources

/-! ### Pulls of a server sweep -/

namespace Model

/-- The variant of a server that is managed elsewhere: what it reports, under the name of the
model. -/
def reported (m : Model) (config : Config) : Variant :=
  ⟨m.name, config, [.remote, .baseline] ++ if m.cpuOnly then [.cpuOnly] else []⟩

theorem reported_eq (m : Model) (config : Config) :
    ({ name := m.name, config := config, tags := [.remote, .baseline] } : Variant).tagIf
      m.cpuOnly .cpuOnly = m.reported config := by
  unfold reported
  cases m.cpuOnly <;> rfl

end Model

namespace ServerSweep
variable {s : ServerSweep}

theorem asked_findBase (s : ServerSweep) (w : World) :
    World.Asked s.resources.client w (s.findBase w).2 := by
  have searched := s.resources.asked_base s.model.name w
  unfold findBase
  split
  · exact .refl
  · split
    · next answer =>
      rw [answer] at searched
      exact searched
    · next answer =>
      rw [answer] at searched
      exact searched

theorem offerRemote_asked (s : ServerSweep) (w : World) :
    (∃ fault later, s.resources.askServer s.model.name (!s.resources.plan.keepLoaded) w =
      (.error fault, later) ∧ s.offerRemote w = ⟨.error fault, s, later⟩) ∨
    ∃ config later, s.resources.askServer s.model.name (!s.resources.plan.keepLoaded) w =
      (.ok config, later) ∧ s.offerRemote w =
        ⟨.ok (some (s.model.reported config)), s.yielded, later.say (.usingReported s.model.name)⟩ := by
  rcases answer : s.resources.askServer s.model.name (!s.resources.plan.keepLoaded) w with
    ⟨fault | config, later⟩
  · refine .inl ⟨fault, later, rfl, ?_⟩
    simp only [offerRemote, remoteVariant, answer]
  · refine .inr ⟨config, later, rfl, ?_⟩
    simp only [offerRemote, remoteVariant, answer, Model.reported_eq]

theorem asked_offerRemote (s : ServerSweep) (w : World) :
    World.Asked s.resources.client w (s.offerRemote w).world := by
  have asked := s.resources.asked_askServer s.model.name (!s.resources.plan.keepLoaded) w
  rcases s.offerRemote_asked w with ⟨fault, later, answer, same⟩ | ⟨config, later, answer, same⟩
  · rw [answer] at asked
    rw [same]
    exact asked
  · rw [answer] at asked
    rw [same]
    exact asked.tail (.said later (.usingReported s.model.name))

theorem source_findBase {w : World} {base : Config} {t : ServerSweep}
    (found : (s.findBase w).1 = .ok (base, t)) : t = { s with base := some base } := by
  unfold findBase at found
  split at found
  · next known =>
    cases found
    rw [← known]
  · split at found
    · cases found
    · cases found
      rfl

/-- An offer asks for its base at most, and then derives one variant at most. -/
theorem world_offer (s : ServerSweep) (o : Overrides) (w : World) :
    World.Asked s.resources.client w (s.offer o w).world ∨
      ∃ base later, World.Asked s.resources.client w later ∧
        (s.offer o w).world = (Variant.derive s.model o base later).2 := by
  have found := s.asked_findBase w
  unfold offer
  rcases answer : s.findBase w with ⟨fault | ⟨base, s'⟩, later⟩
  · rw [answer] at found
    exact .inl found
  · rw [answer] at found
    obtain rfl : s' = { s with base := some base } := source_findBase (congrArg Prod.fst answer)
    exact .inr ⟨base, later, found, rfl⟩

/-- So does a pull, past its step. -/
theorem world_pull (s : ServerSweep) (w : World) :
    World.Asked s.resources.client (s.advance w).2 (s.pull w).world ∨
      ∃ o base later, World.Asked s.resources.client (s.advance w).2 later ∧
        (s.pull w).world = (Variant.derive s.model o base later).2 := by
  have offered (o : Overrides) :
      let offered := ((s.advance w).1.start.offer o (s.advance w).2).world
      World.Asked s.resources.client (s.advance w).2 offered ∨
        ∃ o' base later, World.Asked s.resources.client (s.advance w).2 later ∧
          offered = (Variant.derive s.model o' base later).2 :=
    ((s.advance w).1.start.world_offer o (s.advance w).2).imp_right (fun derived => ⟨o, derived⟩)
  unfold pull
  dsimp only
  split
  · exact .inl .refl
  · unfold current
    split
    · exact .inl ((s.advance w).1.start.asked_offerRemote _)
    · exact offered []
    all_goals
      split
      · exact .inl .refl
      · exact offered _

/-- An offer names at most one set of overrides, for its own model. -/
theorem names_offer (s : ServerSweep) (o : Overrides) (w : World) :
    (s.offer o w).world.names = w.names ∨
      (s.offer o w).world.names = (w.names.name s.model.name o).2 := by
  rcases s.world_offer o w with asked | ⟨base, later, asked, same⟩
  · exact .inl asked.names
  · rw [same, ← asked.names]
    exact .inr rfl

theorem names_pull (s : ServerSweep) (w : World) :
    (s.pull w).world.names = w.names ∨
      ∃ o, (s.pull w).world.names = (w.names.name s.model.name o).2 := by
  have advanced : (s.advance w).2.names = w.names := Course.names_advance s.course w
  rw [← advanced]
  rcases s.world_pull w with asked | ⟨o, base, later, asked, same⟩
  · exact .inl asked.names
  · rw [same, ← asked.names]
    exact .inr ⟨o, rfl⟩

structure Continues (s s' : ServerSweep) : Prop where
  model : s'.model = s.model
  resources : s'.resources = s.resources
  strategy : s'.strategy = s.strategy

theorem Continues.refl (s : ServerSweep) : s.Continues s := ⟨rfl, rfl, rfl⟩

theorem Continues.trans {s s' s'' : ServerSweep} (first : s.Continues s')
    (second : s'.Continues s'') : s.Continues s'' :=
  ⟨second.model.trans first.model, second.resources.trans first.resources,
    second.strategy.trans first.strategy⟩

/-- Of a sweep past its step, a pull changes the base and the turn only. -/
theorem source_pull (s : ServerSweep) (w : World) : ∃ base turn, (s.pull w).source =
    { s with base := base, course := { (s.course.advance w).1 with turn := turn } } := by
  rcases outcome_pull s w with ⟨source, -⟩ | ⟨outcome, -⟩
  · exact ⟨_, _, source⟩
  · revert outcome
    generalize s.pull w = pulled
    intro outcome
    cases outcome with
    | withheld result later nothing => exact ⟨_, _, rfl⟩
    | given base variant later walked => exact ⟨_, _, rfl⟩

theorem continues_pull (s : ServerSweep) (w : World) : s.Continues (s.pull w).source := by
  obtain ⟨base, turn, same⟩ := s.source_pull w
  rw [same]
  exact ⟨rfl, rfl, rfl⟩

theorem listed_pull (s : ServerSweep) (w : World) {other : String}
    (foreign : other ≠ s.model.name) : (s.pull w).world.names.listed other = w.names.listed other := by
  rcases names_pull s w with same | ⟨o, named⟩
  · rw [same]
  · rw [named]
    exact Names.listed_name_of_ne o foreign

def stocked (repository : Repository) (s : ServerSweep) : ServerSweep :=
  { s with resources := { s.resources with repository := repository } }

/-! ### Offers -/

theorem offer_known {base : Config} (known : s.base = some base) (o : Overrides) (w : World) :
    s.offer o w = ⟨.ok (some (Variant.derive s.model o base w).1), s.yielded,
      (Variant.derive s.model o base w).2⟩ := by
  simp only [offer, findBase, known]

theorem offer_sought (unknown : s.base = none) (o : Overrides) (w : World) :
    (∃ fault later, s.resources.base s.model.name w = (.error fault, later) ∧
      s.offer o w = ⟨.error fault, s, later⟩) ∨
    ∃ base later, s.resources.base s.model.name w = (.ok base, later) ∧
      s.offer o w = ⟨.ok (some (Variant.derive s.model o base later).1),
        { s with base := some base }.yielded, (Variant.derive s.model o base later).2⟩ := by
  rcases answer : s.resources.base s.model.name w with ⟨fault | base, later⟩
  · refine .inl ⟨fault, later, rfl, ?_⟩
    simp only [offer, findBase, unknown, answer]
  · refine .inr ⟨base, later, rfl, ?_⟩
    simp only [offer, findBase, unknown, answer]

/-! ### The same pull in another world -/

variable {w w' : World}

theorem like_offerRemote (steady : s.resources.Steady) (like : w.Like s.model.name w') :
    (s.offerRemote w).Like s.model.name (s.offerRemote w') := by
  have answers : (s.resources.askServer s.model.name (!s.resources.plan.keepLoaded) w).1 =
      (s.resources.askServer s.model.name (!s.resources.plan.keepLoaded) w').1 :=
    (Resources.askServer_alike steady.respects _ _ trivial).1
  have worlds : (s.offerRemote w).world.Like s.model.name (s.offerRemote w').world := by
    unfold World.Like
    rw [(s.asked_offerRemote w).names, (s.asked_offerRemote w').names]
    exact like
  rcases s.offerRemote_asked w with ⟨fault, later, answer, same⟩ | ⟨config, later, answer, same⟩
  · rcases s.offerRemote_asked w' with ⟨fault', later', answer', same'⟩ | ⟨_, _, answer', -⟩
    all_goals rw [answer, answer'] at answers
    · obtain rfl : fault = fault' := Except.error.inj answers
      rw [same, same'] at worlds ⊢
      exact ⟨rfl, rfl, worlds⟩
    · cases answers
  · rcases s.offerRemote_asked w' with ⟨_, _, answer', -⟩ | ⟨config', later', answer', same'⟩
    all_goals rw [answer, answer'] at answers
    · cases answers
    · obtain rfl : config = config' := Except.ok.inj answers
      rw [same, same'] at worlds ⊢
      exact ⟨rfl, rfl, worlds⟩

theorem findBase_elsewhere (steady : s.resources.Steady) (w w' : World) :
    (s.findBase w).1 = (s.findBase w').1 := by
  have answers : (s.resources.base s.model.name w).1 = (s.resources.base s.model.name w').1 :=
    (Resources.base_alike steady.respects _ trivial).1
  unfold findBase
  split
  · rfl
  · rcases answer : s.resources.base s.model.name w with ⟨first, later⟩
    rcases answer' : s.resources.base s.model.name w' with ⟨second, later'⟩
    rw [answer, answer'] at answers
    obtain rfl : first = second := answers
    cases first with
    | error fault => rfl
    | ok config => rfl

theorem like_offer (steady : s.resources.Steady) (like : w.Like s.model.name w') (o : Overrides) :
    (s.offer o w).Like s.model.name (s.offer o w') := by
  have names := (s.asked_findBase w).names
  have names' := (s.asked_findBase w').names
  have answers := findBase_elsewhere steady w w'
  unfold offer
  rcases answer : s.findBase w with ⟨first, later⟩
  rcases answer' : s.findBase w' with ⟨second, later'⟩
  rw [answer] at answers names
  rw [answer'] at answers names'
  obtain rfl : first = second := answers
  have still : later.Like s.model.name later' := by
    unfold World.Like
    rw [show later.names = w.names from names, show later'.names = w'.names from names']
    exact like
  cases first with
  | error fault => exact ⟨rfl, rfl, still⟩
  | ok found =>
    obtain ⟨base, t⟩ := found
    obtain rfl : t = { s with base := some base } := source_findBase (congrArg Prod.fst answer)
    obtain ⟨variant, worlds⟩ := Variant.derive_like still o base
    exact ⟨congrArg (fun v => Except.ok (some v)) variant, rfl, worlds⟩

theorem like_current (steady : s.resources.Steady) (like : w.Like s.model.name w') :
    (s.current w).Like s.model.name (s.current w') := by
  unfold current
  split
  · exact like_offerRemote steady like
  · exact like_offer steady like []
  all_goals
    split
    · exact ⟨rfl, rfl, like⟩
    · exact like_offer steady like _

/-- A pull takes nothing from its world but the names of its own model. -/
theorem like_pull (steady : s.resources.Steady) (like : w.Like s.model.name w') :
    (s.pull w).Like s.model.name (s.pull w') := by
  have same : (s.advance w).1 = (s.advance w').1 := by
    unfold advance
    dsimp only
    rw [Course.advance_elsewhere s.course w w']
  have still : (s.advance w).2.Like s.model.name (s.advance w').2 := by
    unfold World.Like
    rw [show (s.advance w).2.names = w.names from Course.names_advance s.course w,
      show (s.advance w').2.names = w'.names from Course.names_advance s.course w']
    exact like
  unfold pull
  dsimp only
  rw [same]
  split
  · exact ⟨rfl, rfl, still⟩
  · exact like_current (s := (s.advance w').1.start) steady still

end ServerSweep

end ServingSweep
