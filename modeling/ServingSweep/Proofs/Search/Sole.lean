import ServingSweep.Proofs.Search.Apart
import ServingSweep.Proofs.Search.Lifecycle

/-!
Searches of one variant. A server sweep that walks nothing answers its first pull and ends, so the
search goes `Alongside` one load sweep from there on. `asks_eq_history` tells its whole history by
calls of any order from that answer and the load sweep alone.
-/

namespace ServingSweep
open Source

def Source.Ask.ended {α : Type} : Ask → Deed α
  | .pull => .pulled (.ok none)
  | .feed batch => .fed batch

namespace Search

/-! ### Results that come -/

theorem feed_of_idle {s : ModelSearch} (idle : s.current = none) (batch : Batch) (w : World) :
    (Source.feed s batch w).1 =
      { s with turn := s.turn.accepted, pending := s.pending.append batch } := by
  rcases feed_cases s batch w with ⟨-, same⟩ | ⟨_, _, _, current, -⟩
  · exact same
  · cases idle.symm.trans current

theorem feed_of_current {s : ModelSearch} {v : Variant} {sweep : LoadSweep}
    (current : s.current = some (v, sweep)) (batch : Batch) (w : World) :
    (Source.feed s batch w).1 =
      { s with
        turn := s.turn.accepted
        pending := s.pending.append batch
        current := some (v, (Source.feed sweep batch w).1) } := by
  rcases feed_cases s batch w with ⟨idle, -⟩ | ⟨_, _, _, under, same⟩
  · cases idle.symm.trans current
  · cases under.symm.trans current
    exact same

theorem calls_feed (s : ModelSearch) (batch : Batch) (w : World) :
    (Source.feed s batch w).2.calls = w.calls := by
  change (s.feed batch w).2.calls = w.calls
  unfold feed
  dsimp only
  cases s.current <;> rfl

/-! ### After the end of the server sweep -/

/-- A server sweep that is done gives nothing, asks nobody and stays done. -/
theorem rests_of_served {server : ServerSweep} (served : server.isDone = true) (w : World) :
    (Source.pull server w).result = .ok none ∧ (Source.pull server w).world.calls = w.calls ∧
      (Source.pull server w).source.isDone = true := by
  have idle := ServerSweep.ages.idles server w served
  exact ⟨idle.ended, idle.calls, (ServerSweep.ages.pulled server w).2 idle.ended⟩

/-- A search between variants whose server sweep is done: all its pulls come to nothing. -/
theorem spent_asks {d : Driven ModelSearch Probe} (idle : d.source.current = none)
    (served : d.source.server.isDone = true) (calls : List Ask) :
    (d.asks calls).past = (calls.map Ask.ended).reverse ++ d.past ∧
      (d.asks calls).world.calls = d.world.calls := by
  induction calls generalizing d with
  | nil => exact ⟨rfl, rfl⟩
  | cons call calls ih =>
    have next : (d.ask call).source.current = none ∧ (d.ask call).source.server.isDone = true ∧
        (d.ask call).past = call.ended :: d.past ∧
        (d.ask call).world.calls = d.world.calls := by
      cases call with
      | pull =>
        let told := d.world.sayAll (d.source.turn.pullEvents d.source.model)
        obtain ⟨ended, asked, done⟩ := rests_of_served served told
        have same := steps_of_stops
          (Stops.serverEnds (s := { d.source with turn := d.source.turn.pulled.start }) idle ended)
        change (Source.pull d.source d.world).source.current = none ∧
          (Source.pull d.source d.world).source.server.isDone = true ∧
          Deed.pulled (Source.pull d.source d.world).result :: d.past = _ ∧
          (Source.pull d.source d.world).world.calls = d.world.calls
        rw [show Source.pull d.source d.world = _ from same]
        exact ⟨idle, done, rfl, asked⟩
      | feed batch =>
        have source : (d.ask (.feed batch)).source = _ := feed_of_idle idle batch d.world
        rw [source]
        exact ⟨idle, served, rfl, calls_feed d.source batch d.world⟩
    obtain ⟨idle, served, past, asked⟩ := next
    obtain ⟨pasts, contacts⟩ := ih idle served
    refine ⟨pasts.trans ?_, contacts.trans asked⟩
    rw [past, List.map_cons, List.reverse_cons, List.append_assoc]
    rfl

/-! ### Alongside a load sweep -/

def probes (run : Uuid) (model : String) (v : Variant) : List (Deed Load) → List (Deed Probe)
  | [] => []
  | .fed batch :: past => .fed batch :: probes run model v past
  | .pulled result :: past =>
    let probe (load : Load) : Probe := ⟨run, (Deed.given past).length, model, v, load⟩
    .pulled (result.map (Option.map probe)) :: probes run model v past

/-- A search that goes through the loads of a variant, as the load sweep does by itself, or has gone
through them. -/
structure Alongside (run : Uuid) (model : String) (v : Variant) (before : List (Deed Probe))
    (contacts : List Call) (d : Driven ModelSearch Probe) (e : Driven LoadSweep Load) : Prop where
  ofRun : d.source.run = run
  ofModel : d.source.model = model
  issued : d.source.issued = (Deed.given e.past).length
  served : d.source.server.isDone = true
  stage : d.source.current = some (v, e.source) ∨
    d.source.current = none ∧ e.source.isDone = true
  past : d.past = probes run model v e.past ++ before
  calls : d.world.calls = contacts

section
variable {run : Uuid} {model : String} {v : Variant} {before : List (Deed Probe)}
  {contacts : List Call}

theorem alongside_steps {s : ModelSearch} {w : World} {past : List (Deed Probe)}
    {e : Driven LoadSweep Load} (along : Alongside run model v before contacts ⟨s, w, past⟩ e) :
    Alongside run model v before contacts
      ⟨(s.steps w).source, (s.steps w).world, .pulled (s.steps w).result :: past⟩ (e.ask .pull) := by
  obtain ⟨rfl, rfl, issued, served, stage, history, rfl⟩ := along
  change s.issued = _ at issued
  change past = probes s.run s.model v e.past ++ before at history
  have ends := Course.ages.pulled e.source e.world
  have grown {result : Except Fault (Option Load)}
      (same : (Source.pull e.source e.world).result = result) :
      (e.ask .pull).past = .pulled result :: e.past :=
    congrArg (fun result => Deed.pulled result :: e.past) same
  -- The search is among the loads of the variant, or has gone through them.
  rcases stage with current | ⟨idle, finished⟩
  · obtain ⟨result, source⟩ := e.source.pull_elsewhere w e.world
    have asked : (Source.pull e.source w).world.calls = w.calls := e.source.calls_pull w
    rcases Course.pull_cases e.source e.world with ⟨-, same⟩ | ⟨load, -, same⟩
    · have ended : (Source.pull e.source e.world).result = .ok none := congrArg Pulled.result same
      -- The load sweep is over, and the server sweep has nothing more.
      let closed := s.close v (Source.pull e.source w).source (Source.pull e.source w).world
      have still : closed.1.server.isDone = true := served
      obtain ⟨nothing, quiet, done⟩ := rests_of_served still closed.2
      have steps : s.steps w = _ := (steps_of_pass (.closes current (result.trans ended))).trans
        (steps_of_stops (.serverEnds rfl nothing))
      rw [steps]
      refine ⟨rfl, rfl, ?_, done, .inr ⟨rfl, ends.2 ended⟩, ?_, quiet.trans asked⟩
      · rw [grown ended]
        exact issued
      · rw [grown ended, history]
        rfl
    · have given : (Source.pull e.source e.world).result = .ok (some load) :=
        congrArg Pulled.result same
      have steps : s.steps w = _ := steps_of_stops (.gives current (result.trans given))
      rw [steps]
      refine ⟨rfl, rfl, ?_, served, .inl (congrArg (fun sweep => some (v, sweep)) source), ?_, asked⟩
      · rw [grown given]
        change s.issued + 1 = (Deed.given e.past ++ [load]).length
        rw [List.length_append, issued]
        rfl
      · rw [grown given, history, issued]
        rfl
  · obtain ⟨nothing, quiet, done⟩ := rests_of_served served w
    have steps : s.steps w = _ := steps_of_stops (.serverEnds idle nothing)
    have ended := (Course.ages.idles e.source e.world finished).ended
    rw [steps]
    refine ⟨rfl, rfl, ?_, done, .inr ⟨idle, ends.2 ended⟩, ?_, quiet⟩
    · rw [grown ended]
      exact issued
    · rw [grown ended, history]
      rfl

theorem alongside_ask {d : Driven ModelSearch Probe} {e : Driven LoadSweep Load}
    (along : Alongside run model v before contacts d e) (call : Ask) :
    Alongside run model v before contacts (d.ask call) (e.ask call) := by
  obtain ⟨rfl, rfl, issued, served, stage, history, rfl⟩ := along
  cases call with
  | pull => exact alongside_steps ⟨rfl, rfl, issued, served, stage, history, rfl⟩
  | feed batch =>
    have asked := calls_feed d.source batch d.world
    have past : (d.ask (.feed batch)).past =
        probes d.source.run d.source.model v (e.ask (.feed batch)).past ++ before :=
      congrArg (List.cons (Deed.fed batch)) history
    rcases stage with current | ⟨idle, finished⟩
    · have source : (d.ask (.feed batch)).source = _ := feed_of_current current batch d.world
      refine ⟨?_, ?_, ?_, ?_, .inl ?_, past, asked⟩
      all_goals rw [source]
      · exact issued
      · exact served
      · rfl
    · have source : (d.ask (.feed batch)).source = _ := feed_of_idle idle batch d.world
      refine ⟨?_, ?_, ?_, ?_, .inr ⟨?_, finished⟩, past, asked⟩
      all_goals rw [source]
      · exact issued
      · exact served
      · exact idle

theorem alongside_asks {d : Driven ModelSearch Probe} {e : Driven LoadSweep Load}
    (along : Alongside run model v before contacts d e) (calls : List Ask) :
    Alongside run model v before contacts (d.asks calls) (e.asks calls) := by
  induction calls generalizing d e with
  | nil => exact along
  | cons call calls ih => exact ih (alongside_ask along call)

end

/-! ### The whole history -/

/-- The history of a search whose server sweep answers one pull, the last deed first. Results before
that pull go nowhere. A fault is the end of the search, a variant has its load sweep told what comes
from that pull on. -/
def history (makeLoad : Variant → LoadSweep) (run : Uuid) (model : String)
    (answer : Except Fault Variant) : List Ask → List (Deed Probe)
  | [] => []
  | .feed batch :: calls => history makeLoad run model answer calls ++ [.fed batch]
  | .pull :: calls =>
    match answer with
    | .error fault => (calls.map Ask.ended).reverse ++ [.pulled (.error fault)]
    | .ok v =>
      let sweep : Driven LoadSweep Load := .start (makeLoad v, {})
      probes run model v (sweep.asks (.pull :: calls)).past

/-- After the calls `before`, the first pull of a server sweep answers this and is the last that
does. -/
structure AnswersOnce (server : ServerSweep) (before : List Call) (answer : Except Fault Variant)
    (contacts : List Call) : Prop where
  result : ∀ w, w.calls = before → (Source.pull server w).result = answer.map some
  calls : ∀ w, w.calls = before → (Source.pull server w).world.calls = contacts
  served : ∀ w, (Source.pull server w).source.isDone = true

theorem pull_eq_history {s : ModelSearch} {before contacts : List Call}
    {answer : Except Fault Variant} (once : AnswersOnce s.server before answer contacts)
    {makeLoad : Variant → LoadSweep} (loads : s.makeLoad = fun _ => makeLoad)
    (idle : s.current = none) (fresh : s.issued = 0) {w : World} (asked : w.calls = before)
    (past : List (Deed Probe)) (calls : List Ask) :
    let d : Driven ModelSearch Probe := Driven.asks ⟨s, w, past⟩ (.pull :: calls)
    d.past = history makeLoad s.run s.model answer (.pull :: calls) ++ past ∧
      d.world.calls = contacts := by
  intro d
  let begun : ModelSearch := { s with turn := s.turn.pulled.start }
  let told := w.sayAll (s.turn.pullEvents s.model)
  let later := (Source.pull s.server told).world
  have result := once.result told asked
  have contact : later.calls = contacts := once.calls told asked
  have served := once.served told
  have first : d = Driven.asks ⟨(Source.pull s w).source, (Source.pull s w).world,
      .pulled (Source.pull s w).result :: past⟩ calls := rfl
  cases answer with
  | error fault =>
    let refused : ModelSearch := { begun with server := (Source.pull s.server told).source }
    have pulled : Source.pull s w = ⟨.error fault, refused, later⟩ :=
      steps_of_stops (.serverFails (s := begun) idle result)
    rw [pulled] at first
    obtain ⟨pasts, quiet⟩ :=
      spent_asks (d := ⟨refused, later, .pulled (.error fault) :: past⟩) idle served calls
    rw [first]
    refine ⟨pasts.trans ?_, quiet.trans contact⟩
    rw [history, List.append_assoc]
    rfl
  | ok v =>
    let opened : ModelSearch := { begun with
      server := (Source.pull s.server told).source
      current := some (v, s.makeLoad s.opened v)
      opened := v :: s.opened }
    have pulled : Source.pull s w = opened.steps (later.say (.profiling v.name)) :=
      steps_of_pass (.opens (s := begun) idle result)
    rw [pulled] at first
    have along : Alongside s.run s.model v past contacts
        ⟨opened, later.say (.profiling v.name), past⟩ (.start (makeLoad v, {})) := by
      refine ⟨rfl, rfl, fresh, served, .inl ?_, rfl, contact⟩
      change some (v, s.makeLoad s.opened v) = some (v, makeLoad v)
      rw [loads]
    have further := alongside_asks (alongside_steps along) calls
    rw [first]
    exact ⟨further.past, further.calls⟩

/-- What comes of the calls to a search whose server sweep answers one pull. -/
theorem asks_eq_history {s : ModelSearch} {before contacts : List Call}
    {answer : Except Fault Variant} (once : AnswersOnce s.server before answer contacts)
    {makeLoad : Variant → LoadSweep} (loads : s.makeLoad = fun _ => makeLoad)
    (idle : s.current = none) (fresh : s.issued = 0) {w : World} (asked : w.calls = before)
    (past : List (Deed Probe)) (calls : List Ask) :
    let d : Driven ModelSearch Probe := Driven.asks ⟨s, w, past⟩ calls
    d.past = history makeLoad s.run s.model answer calls ++ past ∧
      d.world.calls = if .pull ∈ calls then contacts else before := by
  induction calls generalizing s w past with
  | nil => exact ⟨rfl, asked⟩
  | cons call calls ih =>
    cases call with
    | pull =>
      rw [if_pos List.mem_cons_self]
      exact pull_eq_history once loads idle fresh asked past calls
    | feed batch =>
      let told : ModelSearch :=
        { s with turn := s.turn.accepted, pending := s.pending.append batch }
      have fed : (Source.feed s batch w).1 = told := feed_of_idle idle batch w
      obtain ⟨pasts, contact⟩ := ih (s := told) once loads idle fresh
        ((calls_feed s batch w).trans asked) (.fed batch :: past)
      rw [← fed] at pasts contact
      have others : .pull ∈ Ask.feed batch :: calls ↔ .pull ∈ calls := by simp
      simp only [others]
      refine ⟨pasts.trans ?_, contact⟩
      rw [fed, history, List.append_assoc]
      rfl

/-! ### What a history shows -/

theorem probes_mapRun (run run' : Uuid) (model : String) (v : Variant) (past : List (Deed Load)) :
    (probes run model v past).map (Deed.mapRun (fun _ => run')) = probes run' model v past := by
  induction past with
  | nil => rfl
  | cons deed past ih =>
    rcases deed with (fault | _ | load) | batch <;> exact congrArg (List.cons _) ih

theorem history_mapRun (makeLoad : Variant → LoadSweep) (run run' : Uuid) (model : String)
    (answer : Except Fault Variant) (calls : List Ask) :
    (history makeLoad run model answer calls).map (Deed.mapRun (fun _ => run')) =
      history makeLoad run' model answer calls := by
  induction calls with
  | nil => rfl
  | cons call calls ih =>
    cases call with
    | feed batch =>
      rw [history, List.map_append, ih]
      rfl
    | pull =>
      cases answer with
      | error fault =>
        have same (call : Ask) : (Ask.ended call).mapRun (fun _ => run') = call.ended := by
          cases call <;> rfl
        simp only [history, List.map_append, List.map_reverse, List.map_map, Function.comp_def, same]
        rfl
      | ok v => exact probes_mapRun run run' model v _

theorem variant_of_probes {run : Uuid} {model : String} {v : Variant} {past : List (Deed Load)}
    {probe : Probe} (member : .pulled (.ok (some probe)) ∈ probes run model v past) :
    probe.variant = v := by
  induction past with
  | nil => cases member
  | cons deed past ih =>
    rcases deed with (fault | _ | load) | batch
    · exact ih ((List.mem_cons.mp member).resolve_left (fun now => nomatch now))
    · exact ih ((List.mem_cons.mp member).resolve_left (fun now => nomatch now))
    · rcases List.mem_cons.mp member with now | earlier
      · cases now
        rfl
      · exact ih earlier
    · exact ih ((List.mem_cons.mp member).resolve_left (fun now => nomatch now))

/-- Every trial has the variant that was answered. -/
theorem variant_of_history {makeLoad : Variant → LoadSweep} {run : Uuid} {model : String}
    {answer : Except Fault Variant} {calls : List Ask} {probe : Probe}
    (member : .pulled (.ok (some probe)) ∈ history makeLoad run model answer calls) :
    answer = .ok probe.variant := by
  induction calls with
  | nil => cases member
  | cons call calls ih =>
    cases call with
    | feed batch =>
      rcases List.mem_append.mp member with later | first
      · exact ih later
      · cases List.mem_singleton.mp first
    | pull =>
      cases answer with
      | error fault =>
        rcases List.mem_append.mp member with later | first
        · obtain ⟨call, -, same⟩ := List.mem_map.mp (List.mem_reverse.mp later)
          cases call <;> cases same
        · cases List.mem_singleton.mp first
      | ok v => exact congrArg Except.ok (variant_of_probes member).symm

end Search
end ServingSweep
