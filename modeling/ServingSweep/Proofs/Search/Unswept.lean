import ServingSweep.Control.Script
import ServingSweep.Proofs.OwnName
import ServingSweep.Proofs.Search.Sole

/-!
Passes that sweep nothing on the server side. What a server that is managed elsewhere reports, or
the base configuration, is the one variant of the pass, and nothing that only bounds or fills a
sweep of the server side has a part in what comes of any calls (`unswept`).
-/

namespace ServingSweep
open Source

/-! ### The one variant -/

namespace Model

def unchanged (m : Model) (base : Config) : Variant :=
  ⟨Names.baseline m.name, Keyed.insert base "name" (.text (Names.baseline m.name)),
    [.baseline] ++ if m.cpuOnly then [.cpuOnly] else []⟩

theorem unchanged_eq (m : Model) (base : Config) :
    Variant.build (Names.baseline m.name) m [] base = m.unchanged base := by
  unfold unchanged Variant.build
  cases m.cpuOnly <;> rfl

end Model

namespace Search

/-- A question whose answer tells by the calls made before it, asked by the first pull and no
other. -/
theorem answersOnce_of {server : ServerSweep} {w : World} {make : Config → Variant}
    {question : World → Except Fault Config × World}
    (told : ∀ later : World, later.calls = w.calls → (question later).1 = (question w).1 ∧
      (question later).2.calls = (question w).2.calls)
    (asked : ∀ later, (Source.pull server later).result =
        ((question later).1.map make).map some ∧
      (Source.pull server later).world.calls = (question later).2.calls ∧
      (Source.pull server later).source.isDone = true) :
    AnswersOnce server w.calls ((question w).1.map make) (question w).2.calls where
  result later same := by rw [(asked later).1, (told later same).1]
  calls later same := by rw [(asked later).2.1, (told later same).2]
  served later := (asked later).2.2

variable (r : Resources) (m : Model) (exit : Bool) (w : World)

theorem answersOnce_remote :
    let asked := r.askServer m.name (!r.plan.keepLoaded) w
    AnswersOnce (.of r m .remote exit) w.calls (asked.1.map m.reported) asked.2.calls := by
  refine answersOnce_of (fun later same => Resources.askServer_alike r.respects_eq _ _ same)
    (fun later => ?_)
  let s := (ServerSweep.of r m .remote exit).start
  change (s.offerRemote later).result = _ ∧ (s.offerRemote later).world.calls = _ ∧
    (s.offerRemote later).source.isDone = true
  rcases s.offerRemote_asked later with ⟨fault, told, failed, same⟩ | ⟨config, told, given, same⟩
  · rw [same, show r.askServer m.name (!r.plan.keepLoaded) later = _ from failed]
    exact ⟨rfl, rfl, rfl⟩
  · rw [same, show r.askServer m.name (!r.plan.keepLoaded) later = _ from given]
    exact ⟨rfl, rfl, rfl⟩

theorem answersOnce_baseline :
    let found := r.base m.name w
    AnswersOnce (.of r m .baseline exit) w.calls (found.1.map m.unchanged) found.2.calls := by
  refine answersOnce_of (fun later same => Resources.base_alike r.respects_eq _ same) (fun later => ?_)
  let s := (ServerSweep.of r m .baseline exit).start
  change (s.offer [] later).result = _ ∧ (s.offer [] later).world.calls = _ ∧
    (s.offer [] later).source.isDone = true
  rcases ServerSweep.offer_sought (s := s) rfl [] later with
    ⟨fault, told, failed, same⟩ | ⟨base, told, given, same⟩
  · rw [same, show r.base m.name later = _ from failed]
    exact ⟨rfl, rfl, rfl⟩
  · rw [same, show r.base m.name later = _ from given]
    exact ⟨congrArg (fun v => Except.ok (some v)) (m.unchanged_eq base), rfl, rfl⟩

/-! ### Passes -/

structure Ranges where
  axes : List Axis
  batchSize : Bounds
  instances : Bounds
  models : List Model

structure Stock where
  path : String
  repository : Repository
  remoteFallback : Bool

end Search

/-- The resources with other ranges to sweep on the server side, if it may be swept. -/
def Resources.ranged (r : Resources) (x : Search.Ranges) (baselineOnly : Bool) : Resources :=
  { r with plan := { r.plan with
    baselineOnly := baselineOnly
    batchSize := x.batchSize
    instances := x.instances
    models := x.models } }

def Resources.restocked (r : Resources) (stock : Search.Stock) : Resources :=
  { r with
    plan := { r.plan with repository := stock.path, remoteFallback := stock.remoteFallback }
    repository := stock.repository }

def Model.ranged (m : Model) (x : Search.Ranges) : Model := { m with axes := x.axes }

namespace Search

def pass (r : Resources) (m : Model) (baselineOnly : Bool) (run : Uuid) (w : World)
    (calls : List Ask) : Driven ModelSearch Probe :=
  (Driven.start (ofPlan r m baselineOnly run w)).asks calls

/-- The calls came to the loads of one variant, the one that was answered. -/
structure Sole (p : Plan) (m : Model) (run : Uuid) (before : List Call)
    (answer : Except Fault Variant) (contacts : List Call) (calls : List Ask)
    (d : Driven ModelSearch Probe) : Prop where
  past : d.past = history (fun v => LoadSweep.ofPlan p m v.name) run m.name answer calls
  variant : ∀ probe, .pulled (.ok (some probe)) ∈ d.past → answer = .ok probe.variant
  calls : d.world.calls = if .pull ∈ calls then contacts else before

/-- Two searches came to the same, up to the id of the run, by the same calls to the server. -/
structure Agrees (run' : Uuid) (d d' : Driven ModelSearch Probe) : Prop where
  past : d'.past = d.past.map (Deed.mapRun (fun _ => run'))
  calls : d'.world.calls = d.world.calls

theorem sole_of_answersOnce {r : Resources} {m : Model} {baselineOnly : Bool} {w : World}
    {answer : Except Fault Variant} {contacts : List Call}
    (once : AnswersOnce (ServerSweep.ofPlan r m baselineOnly w).1 w.calls answer contacts)
    (run : Uuid) (calls : List Ask) :
    Sole r.plan m run w.calls answer contacts calls (pass r m baselineOnly run w calls) := by
  let s := (ofPlan r m baselineOnly run w).1
  have later : (ofPlan r m baselineOnly run w).2.calls = w.calls := rfl
  have loads : s.makeLoad = fun _ => fun v => LoadSweep.ofPlan r.plan m v.name := rfl
  obtain ⟨past, contact⟩ := asks_eq_history (s := s) once loads rfl rfl later [] calls
  rw [List.append_nil] at past
  refine ⟨past, fun probe member => ?_, contact⟩
  rw [show (pass r m baselineOnly run w calls).past = _ from past] at member
  exact variant_of_history member

theorem Sole.agrees {p p' : Plan} {m m' : Model} {run run' : Uuid} {before : List Call}
    {answer : Except Fault Variant} {contacts : List Call} {calls : List Ask}
    {d d' : Driven ModelSearch Probe} (sole : Sole p m run before answer contacts calls d)
    (sole' : Sole p' m' run' before answer contacts calls d') (name : m'.name = m.name)
    (loads : ∀ variant, LoadSweep.ofPlan p' m' variant = LoadSweep.ofPlan p m variant) :
    Agrees run' d d' := by
  refine ⟨?_, sole'.calls.trans sole.calls.symm⟩
  rw [sole'.past, sole.past, history_mapRun, name]
  simp only [loads]

theorem sole_remote {r : Resources} (remote : r.plan.launch = .remote) (m : Model)
    (baselineOnly : Bool) (run : Uuid) (w : World) (calls : List Ask) :
    let asked := r.askServer m.name (!r.plan.keepLoaded) w
    Sole r.plan m run w.calls (asked.1.map m.reported) asked.2.calls calls
      (pass r m baselineOnly run w calls) := by
  have strategy : Strategy.ofPlan r.plan m baselineOnly = .remote := if_pos remote
  refine sole_of_answersOnce ?_ run calls
  change AnswersOnce (.of r m (Strategy.ofPlan r.plan m baselineOnly) _) _ _ _
  rw [strategy]
  exact answersOnce_remote r m _ w

theorem sole_baseline {r : Resources} (own : r.plan.launch = .own) (m : Model)
    {baselineOnly : Bool} (only : (baselineOnly || r.plan.baselineOnly) = true) (run : Uuid)
    (w : World) (calls : List Ask) :
    let found := r.base m.name w
    Sole r.plan m run w.calls (found.1.map m.unchanged) found.2.calls calls
      (pass r m baselineOnly run w calls) := by
  have strategy : Strategy.ofPlan r.plan m baselineOnly = .baseline := by
    rw [Strategy.ofPlan, if_neg (by simp [own]), if_pos only]
  refine sole_of_answersOnce ?_ run calls
  change AnswersOnce (.of r m (Strategy.ofPlan r.plan m baselineOnly) _) _ _ _
  rw [strategy]
  exact answersOnce_baseline r m _ w

/-- A server that is managed elsewhere is never swept: whatever is called, all trials have the
variant it reports, with the loads of one sweep, and what a sweep of the server side would be over
or start from has no part in it. Neither is the base configuration swept where it alone is to be
profiled. -/
theorem unswept (r : Resources) (m : Model) (baselineOnly : Bool) (run : Uuid) (w : World)
    (calls : List Ask) :
    let d := pass r m baselineOnly run w calls
    let asked := r.askServer m.name (!r.plan.keepLoaded) w
    let found := r.base m.name w
    (r.plan.launch = .remote →
      Sole r.plan m run w.calls (asked.1.map m.reported) asked.2.calls calls d ∧
      ∀ (x : Ranges) (stock : Stock) (only baselineOnly' : Bool) (run' : Uuid) (w' : World),
        w'.calls = w.calls → Agrees run' d
          (pass ((r.ranged x only).restocked stock) (m.ranged x) baselineOnly' run' w' calls)) ∧
    (r.plan.launch = .own → (baselineOnly || r.plan.baselineOnly) = true →
      Sole r.plan m run w.calls (found.1.map m.unchanged) found.2.calls calls d ∧
      ∀ (x : Ranges) (only baselineOnly' : Bool) (run' : Uuid) (w' : World),
        (baselineOnly' || only) = true → w'.calls = w.calls → Agrees run' d
          (pass (r.ranged x only) (m.ranged x) baselineOnly' run' w' calls)) := by
  intro d asked found
  refine ⟨fun remote => ?_, fun own only => ?_⟩
  · have sole := sole_remote remote m baselineOnly run w calls
    refine ⟨sole, fun x stock only baselineOnly' run' w' same => ?_⟩
    let r' := (r.ranged x only).restocked stock
    have sole' := sole_remote (r := r') remote (m.ranged x) baselineOnly' run' w' calls
    obtain ⟨answer, contacts⟩ := Resources.askServer_alike r.respects_eq m.name
      (!r.plan.keepLoaded) same
    have answer' : r'.askServer m.name (!r.plan.keepLoaded) w' =
        r.askServer m.name (!r.plan.keepLoaded) w' := rfl
    change Sole _ _ _ _ ((r'.askServer m.name (!r.plan.keepLoaded) w').1.map m.reported)
      (r'.askServer m.name (!r.plan.keepLoaded) w').2.calls _ _ at sole'
    rw [answer', answer, contacts, same] at sole'
    exact sole.agrees sole' rfl (fun _ => rfl)
  · have sole := sole_baseline own m only run w calls
    refine ⟨sole, fun x only baselineOnly' run' w' still same => ?_⟩
    have sole' := sole_baseline (r := r.ranged x only) own (m.ranged x) still run' w' calls
    obtain ⟨answer, contacts⟩ := Resources.base_alike r.respects_eq m.name same
    have answer' : (r.ranged x only).base m.name w' = r.base m.name w' := rfl
    change Sole _ _ _ _ (((r.ranged x only).base m.name w').1.map m.unchanged)
      ((r.ranged x only).base m.name w').2.calls _ _ at sole'
    rw [answer', answer, contacts, same] at sole'
    exact sole.agrees sole' rfl (fun _ => rfl)

def settledBy (launch : Launch) : Resources where
  plan := { launch := launch, baselineOnly := true }
  repository := Repository.ofConfigs [("m", [("platform", .text "onnx")])]
  client := some (Script.client { config := [("backend", .text "python")] })

def wider : Ranges where
  axes := [⟨"max_batch_size", [.word 2, .word 4]⟩]
  batchSize := ⟨2, 16⟩
  instances := ⟨1, 8⟩
  models := []

def emptied : Stock := ⟨"elsewhere", Repository.ofConfigs [], false⟩

/-- Fed too early, then with one load left unreported and one fed twice. -/
def outOfTurn : List Ask :=
  [.feed [none], .pull, .pull, .feed [none], .feed [], .pull, .feed [none], .pull]

theorem unswept_outOfTurn :
    let remote := pass (settledBy .remote) Tour.twoLoads false ⟨0⟩ {} outOfTurn
    let wide := pass (((settledBy .remote).ranged wider false).restocked emptied)
      (Tour.twoLoads.ranged wider) true ⟨1⟩ {} outOfTurn
    let own := pass (settledBy .own) Tour.twoLoads false ⟨0⟩ {} outOfTurn
    let pinned := pass ((settledBy .own).ranged wider false) (Tour.twoLoads.ranged wider) true ⟨1⟩ {}
      outOfTurn
    (Deed.given remote.past).map (fun p => (p.variant.name, p.load.concurrency)) =
      [("m", 1), ("m", 2)] ∧
    remote.world.calls = [.load "m", .config "m" 50, .unload "m"] ∧ Agrees ⟨1⟩ remote wide ∧
    (∀ probe, .pulled (.ok (some probe)) ∈ remote.past →
      probe.variant = ⟨"m", [("backend", .text "python")], [.remote, .baseline]⟩) ∧
    (Deed.given own.past).map (fun p => (p.variant.name, p.load.concurrency)) =
      [("m_config_default", 1), ("m_config_default", 2)] ∧
    own.world.calls = [] ∧ Agrees ⟨1⟩ own pinned := by
  intro remote wide own pinned
  obtain ⟨sole, agrees⟩ :=
    (unswept (settledBy .remote) Tour.twoLoads false ⟨0⟩ {} outOfTurn).1 rfl
  obtain ⟨-, agrees'⟩ :=
    (unswept (settledBy .own) Tour.twoLoads false ⟨0⟩ {} outOfTurn).2 rfl rfl
  refine ⟨by decide +kernel, by decide +kernel, agrees wider emptied false true ⟨1⟩ {} rfl, ?_,
    by decide +kernel, by decide +kernel, agrees' wider false true ⟨1⟩ {} rfl rfl⟩
  intro probe member
  exact (Except.ok.inj (sole.variant probe member)).symm

end Search
end ServingSweep
