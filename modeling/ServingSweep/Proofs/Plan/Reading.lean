import ServingSweep.Plan.Json
import ServingSweep.Proofs.Json.Results
import ServingSweep.Proofs.Value

/-!
Plans read back from their JSON. Whatever a text looks like, the values of the plan that is read of
it are `Held`: their maps are in order, they nest no deeper than the reader goes and their floats
are finite. So the plan reads back unchanged from any text that is written of it, unless a float of
it is lost in writing.
-/

namespace ServingSweep
open Json (Reader Record Alike Document)

namespace Value

structure Held (depth : Nat) (v : Value) : Prop where
  ordered : v.Ordered
  height : v.height ≤ depth
  finite : ∀ x ∈ v.floats, x.isFinite = true

variable {depth : Nat} {v : Value}

theorem held_scalar {s : Scalar} {d : Document} (found : Scalar.read depth d = some s) :
    Held depth (.scalar s) := by
  refine ⟨trivial, Nat.zero_le _, ?_⟩
  change ∀ x ∈ s.floats, x.isFinite = true
  obtain ⟨reader, among, found⟩ := List.exists_of_findSome?_eq_some found
  simp only [List.mem_cons, List.not_mem_nil, or_false] at among
  rcases among with rfl | rfl | rfl | rfl | rfl
  · unfold Scalar.readNull at found
    split at found
    · cases found
      exact nofun
    · cases found
  · obtain ⟨b, -, rfl⟩ := Option.map_eq_some_iff.mp found
    exact nofun
  · unfold Scalar.readInt at found
    split at found
    · obtain ⟨n, -, rfl⟩ := Option.map_eq_some_iff.mp found
      exact nofun
    · cases found
  · obtain ⟨x, real, rfl⟩ := Option.map_eq_some_iff.mp found
    exact List.forall_mem_singleton.mpr (Reader.isFinite_of_real real)
  · obtain ⟨s, -, rfl⟩ := Option.map_eq_some_iff.mp found
    exact nofun

theorem held_sequence {items : List Value} (each : ∀ item ∈ items, item.Held depth) :
    Held (depth + 1) (.sequence items) := by
  have all : OrderedItems items ∧ heightItems items ≤ depth ∧
      ∀ x ∈ floatsItems items, x.isFinite = true := by
    induction items with
    | nil => exact ⟨trivial, Nat.zero_le _, nofun⟩
    | cons item items ih =>
      obtain ⟨first, later⟩ := List.forall_mem_cons.mp each
      obtain ⟨ordered, height, finite⟩ := ih later
      exact ⟨⟨first.ordered, ordered⟩, Nat.max_le.mpr ⟨first.height, height⟩,
        List.forall_mem_append.mpr ⟨first.finite, finite⟩⟩
  exact ⟨all.1, Nat.succ_le_succ all.2.1, all.2.2⟩

theorem held_mapping {entries : List (String × Value)} (ordered : Keyed.Ordered entries)
    (each : ∀ e ∈ entries, e.2.Held depth) : Held (depth + 1) (.mapping entries) := by
  -- The values one by one, in whatever order their keys are.
  have all : ∀ entries : List (String × Value), (∀ e ∈ entries, e.2.Held depth) →
      OrderedEntries entries ∧ heightEntries entries ≤ depth ∧
        ∀ x ∈ floatsEntries entries, x.isFinite = true := by
    intro entries each
    induction entries with
    | nil => exact ⟨trivial, Nat.zero_le _, nofun⟩
    | cons e entries ih =>
      obtain ⟨first, later⟩ := List.forall_mem_cons.mp each
      obtain ⟨ordered, height, finite⟩ := ih later
      exact ⟨⟨first.ordered, ordered⟩, Nat.max_le.mpr ⟨first.height, height⟩,
        List.forall_mem_append.mpr ⟨first.finite, finite⟩⟩
  obtain ⟨inner, height, finite⟩ := all entries each
  exact ⟨⟨ordered, inner⟩, Nat.succ_le_succ height, finite⟩

mutual

theorem held_of_read : ∀ (d : Document) {depth : Nat} {v : Value}, read depth d = some v →
    v.Held depth
  | .null, _, _, found | .bool _, _, _, found | .number _, _, _, found | .text _, _, _, found => by
    unfold read at found
    obtain ⟨s, scalar, rfl⟩ := Option.map_eq_some_iff.mp found
    exact held_scalar scalar
  | .array docs, depth, _, found => by
    rw [read_array] at found
    obtain ⟨items, listed, rfl⟩ := Option.map_eq_some_iff.mp found
    obtain ⟨below, others, rfl, same, each⟩ := Reader.exists_of_list listed
    cases same
    refine held_sequence (fun item member => ?_)
    obtain ⟨d, inside, found⟩ := each item member
    exact held_of_readItems docs d inside found
  | .object members, depth, _, found => by
    rw [read_object] at found
    obtain ⟨entries, keyed, rfl⟩ := Option.map_eq_some_iff.mp found
    obtain ⟨ordered, below, others, rfl, same, each⟩ := Reader.exists_of_keyed keyed
    cases same
    refine held_mapping ordered (fun e member => ?_)
    obtain ⟨n, inside, found⟩ := each e member
    exact held_of_readMembers members n inside found

theorem held_of_readItems : ∀ (docs : List Document), ∀ d ∈ docs, ∀ {depth : Nat} {v : Value},
    read depth d = some v → v.Held depth
  | [] => nofun
  | d :: docs => List.forall_mem_cons.mpr ⟨held_of_read d, held_of_readItems docs⟩

theorem held_of_readMembers : ∀ (members : List (Option String × Document)), ∀ n ∈ members,
    ∀ {depth : Nat} {v : Value}, read depth n.2 = some v → v.Held depth
  | [] => nofun
  | (_, d) :: members => List.forall_mem_cons.mpr ⟨held_of_read d, held_of_readMembers members⟩

end

theorem Held.keeps (held : v.Held depth) :
    Reader.Keeps read depth v v.toJson (∀ x ∈ v.floats, x.ReadsBack) := by
  have legible : v.Legible depth ↔ ∀ x ∈ v.floats, x.ReadsBack := and_iff_right held.height
  rw [← legible]
  exact Value.keeps v held.ordered depth

end Value

/-! ### Parts of a plan -/

variable {depth : Nat}

/-- A record that is rebuilt around one field is the same when that field is. -/
theorem bind_make_eq_some_iff {α β : Type} {o : Option α} {make : α → β} {f : β → α} {b : β}
    (field : ∀ a, f (make a) = a) (back : make (f b) = b) :
    (o.bind fun a => some (make a)) = some b ↔ o = some (f b) := by
  constructor
  · intro all
    obtain ⟨a, same, whole⟩ := Option.bind_eq_some_iff.mp all
    rw [same, ← Option.some.inj whole, field]
  · intro same
    rw [same, Option.bind_some, back]

theorem Launch.keeps (l : Launch) : Launch.read.Keeps depth l (.text l.name) True :=
  Reader.keeps_oneOf l.lookup_name

namespace Axis
variable {a : Axis}

def floats (a : Axis) : List Binary64 := a.values.flatMap Value.floats

def Held (depth : Nat) (a : Axis) : Prop := ∀ v ∈ a.values, v.Held depth

theorem held_of_read {d : Document} (found : Axis.read (depth + 2) d = some a) : a.Held depth := by
  simp only [Axis.read, Option.bind_eq_bind, Option.bind_eq_some_iff] at found
  obtain ⟨r, record, key, -, values, found, same⟩ := found
  cases same
  have level := Record.depth_of? record
  obtain ⟨d, found⟩ := Record.exists_of_required found
  obtain ⟨below, items, deeper, -, each⟩ := Reader.exists_of_list found
  obtain rfl : depth = below := by omega
  intro v member
  obtain ⟨item, -, found⟩ := each v member
  exact Value.held_of_read item found

theorem Held.keeps (held : a.Held depth) :
    Axis.read.Keeps (depth + 2) a a.toJson (∀ x ∈ a.floats, x.ReadsBack) := by
  have values : (Reader.list Value.read).Keeps (depth + 1) a.values
      (.array (a.values.map Value.toJson)) (∀ v ∈ a.values, ∀ x ∈ v.floats, x.ReadsBack) :=
    Reader.keeps_list (fun v => ∀ x ∈ v.floats, x.ReadsBack) (fun v member => (held v member).keeps)
  intro written alike
  rw [toJson, Value.toJsonItems_eq] at alike
  obtain ⟨r, found, holds⟩ := Record.exists_holds (depth + 1) alike
    (show ["key", "values"].Nodup by decide) ["key", "values"]
  have key := holds.required "key" (by simp) (by simp) (Reader.keeps_text a.key)
  have kept := holds.required_iff "values" (by simp) (by simp) values
  simp only [Axis.read, found, key, Option.bind_eq_bind, Option.bind_some, floats,
    List.forall_mem_flatMap, ← kept]
  exact bind_make_eq_some_iff (f := Axis.values) (fun _ => rfl) rfl

end Axis

theorem Pins.keeps (p : Pins) : Pins.read.Keeps (depth + 2) p p.toJson True := by
  have words (ns : List UInt32) : (Reader.list Reader.word32).Keeps (depth + 1) ns
      (.array (ns.map Json.word)) True :=
    (Reader.keeps_list (fun _ => True) (fun n _ => Reader.keeps_word32 n)).of_true
      (fun _ _ => trivial)
  intro written alike
  obtain ⟨r, found, holds⟩ := Record.exists_holds (depth + 1) alike
    (show ["batch_sizes", "concurrency"].Nodup by decide) ["concurrency", "batch_sizes"]
  have concurrencies := holds.defaulted "concurrency" (by simp) (by simp) (words p.concurrencies) []
  have batchSizes := holds.defaulted "batch_sizes" (by simp) (by simp) (words p.batchSizes) []
  refine iff_of_true ?_ trivial
  simp only [Pins.read, found, concurrencies, batchSizes, Option.bind_eq_bind, Option.bind_some]

namespace Model
variable {m : Model}

def floats (m : Model) : List Binary64 := m.axes.flatMap Axis.floats

structure Held (depth : Nat) (m : Model) : Prop where
  flags : m.flags.Ordered
  axes : ∀ a ∈ m.axes, a.Held depth

theorem held_of_read {d : Document} (found : Model.read (depth + 4) d = some m) : m.Held depth := by
  simp only [Model.read, Option.bind_eq_bind, Option.bind_eq_some_iff] at found
  obtain ⟨r, record, name, -, cpuOnly, -, axes, axesFound, pins, -, flags, flagsFound, same⟩ := found
  cases same
  have level := Record.depth_of? record
  constructor
  · rcases Record.exists_of_defaulted flagsFound with rfl | ⟨d, found⟩
    · exact .nil
    · exact (Reader.exists_of_keyed found).1
  · rcases Record.exists_of_defaulted axesFound with rfl | ⟨d, found⟩
    · exact nofun
    · obtain ⟨below, items, deeper, -, each⟩ := Reader.exists_of_list found
      obtain rfl : below = depth + 2 := by omega
      intro a member
      obtain ⟨item, -, found⟩ := each a member
      exact Axis.held_of_read found

theorem Held.keeps (held : m.Held depth) :
    Model.read.Keeps (depth + 4) m m.toJson (∀ x ∈ m.floats, x.ReadsBack) := by
  have flags : (Reader.keyed Reader.text).Keeps (depth + 3) m.flags
      (Json.ofKeyed Json.text m.flags) True :=
    (Reader.keeps_keyed (fun _ => True) held.flags (fun e _ => Reader.keeps_text e.2)).of_true
      (fun _ _ => trivial)
  have axes : (Reader.list Axis.read).Keeps (depth + 3) m.axes (.array (m.axes.map Axis.toJson))
      (∀ a ∈ m.axes, ∀ x ∈ a.floats, x.ReadsBack) :=
    Reader.keeps_list (fun a => ∀ x ∈ a.floats, x.ReadsBack)
      (fun a member => (held.axes a member).keeps)
  intro written alike
  obtain ⟨r, found, holds⟩ := Record.exists_holds (depth + 3) alike
    (show ["cpu_only", "model_config_parameters", "name", "parameters",
      "perf_analyzer_flags"].Nodup by decide) fields
  have name := holds.required "name" (by simp) (by simp [fields]) (Reader.keeps_text m.name)
  have cpuOnly :=
    holds.defaulted "cpu_only" (by simp) (by simp [fields]) (Reader.keeps_bool m.cpuOnly) false
  have kept : r.defaulted "model_config_parameters" (Reader.list Axis.read) [] = some m.axes ↔ _ :=
    holds.defaulted_iff "model_config_parameters" (by simp) (by simp [fields]) axes
  have pins := holds.defaulted "parameters" (by simp) (by simp [fields]) m.pins.keeps {}
  have flags := holds.defaulted "perf_analyzer_flags" (by simp) (by simp [fields]) flags []
  simp only [Model.read, found, name, cpuOnly, pins, flags, Option.bind_eq_bind, Option.bind_some,
    floats, List.forall_mem_flatMap, ← kept]
  exact bind_make_eq_some_iff (f := Model.axes) (fun _ => rfl) rfl

end Model

/-! ### Whole plans -/

namespace Plan
variable {p : Plan}

def floats (p : Plan) : List Binary64 := p.models.flatMap Model.floats

theorem held_of_read {d : Document} (found : Plan.read (depth + 6) d = some p) :
    ∀ m ∈ p.models, m.Held depth := by
  unfold Plan.read at found
  obtain ⟨r, record, found⟩ := Option.bind_eq_some_iff.mp found
  iterate 11 obtain ⟨_, _, found⟩ := Option.bind_eq_some_iff.mp found
  obtain ⟨models, listed, same⟩ := Option.bind_eq_some_iff.mp found
  cases same
  have level := Record.depth_of? record
  rcases Record.exists_of_defaulted listed with rfl | ⟨d, found⟩
  · exact nofun
  · obtain ⟨below, items, deeper, -, each⟩ := Reader.exists_of_list found
    obtain rfl : below = depth + 4 := by omega
    intro m member
    obtain ⟨item, -, found⟩ := each m member
    exact Model.held_of_read found

theorem readBounds_eq {ms : List (String × Json)} {r : Record} (holds : r.Holds fields depth ms)
    {least most : String} {b : Bounds} (low : (least, Json.word b.least) ∈ ms)
    (high : (most, Json.word b.most) ∈ ms) (lowListed : least ∈ fields) (highListed : most ∈ fields)
    (default : Bounds) : readBounds r least most default = some b := by
  have least := holds.defaulted least low lowListed (Reader.keeps_word32 b.least) default.least
  have most := holds.defaulted most high highListed (Reader.keeps_word32 b.most) default.most
  simp only [readBounds, least, most, Option.bind_eq_bind, Option.bind_some]

theorem distinct_fields : ["client_max_retries", "early_exit_enable", "launch_mode",
    "max_concurrency", "max_instance_count", "max_model_batch_size", "min_concurrency",
    "min_instance_count", "min_model_batch_size", "model_repository", "models", "objective_metric",
    "reload_model_disable", "remote_fallback", "run_config_search_disable"].Nodup := by
  decide

/-- Only the models may come out different. -/
theorem read_eq {d : Document} {r : Record} (found : Record.of? fields (depth + 1) d = some r)
    {ms : List (String × Json)} (shown : p.toJson = .object ms) (holds : r.Holds fields depth ms) :
    Plan.read (depth + 1) d = (r.defaulted "models" (Reader.list Model.read) []).bind
      (fun models => some { p with models := models }) := by
  cases shown
  -- A field that was written is never filled by default.
  let q : Plan := {}
  have objective := holds.defaulted "objective_metric" (by simp) (by simp [fields])
    (Reader.keeps_text p.objective) q.objective
  have earlyExit := holds.defaulted "early_exit_enable" (by simp) (by simp [fields])
    (Reader.keeps_bool p.earlyExit) q.earlyExit
  have baselineOnly := holds.defaulted "run_config_search_disable" (by simp) (by simp [fields])
    (Reader.keeps_bool p.baselineOnly) q.baselineOnly
  have launch := holds.defaulted "launch_mode" (by simp) (by simp [fields]) p.launch.keeps q.launch
  have repository := holds.defaulted "model_repository" (by simp) (by simp [fields])
    (Reader.keeps_text p.repository) q.repository
  have remoteFallback := holds.defaulted "remote_fallback" (by simp) (by simp [fields])
    (Reader.keeps_bool p.remoteFallback) q.remoteFallback
  have keepLoaded := holds.defaulted "reload_model_disable" (by simp) (by simp [fields])
    (Reader.keeps_bool p.keepLoaded) q.keepLoaded
  have retries := holds.defaulted "client_max_retries" (by simp) (by simp [fields])
    (Reader.keeps_word32 p.retries) q.retries
  have concurrency : readBounds r "min_concurrency" "max_concurrency" q.concurrency =
      some p.concurrency :=
    readBounds_eq holds (by simp) (by simp) (by simp [fields]) (by simp [fields]) _
  have batchSize : readBounds r "min_model_batch_size" "max_model_batch_size" q.batchSize =
      some p.batchSize :=
    readBounds_eq holds (by simp) (by simp) (by simp [fields]) (by simp [fields]) _
  have instances : readBounds r "min_instance_count" "max_instance_count" q.instances =
      some p.instances :=
    readBounds_eq holds (by simp) (by simp) (by simp [fields]) (by simp [fields]) _
  unfold Plan.read
  rw [found]
  dsimp only [Option.bind_eq_bind, Option.bind_some, q] at *
  simp only [objective, earlyExit, baselineOnly, launch, repository, remoteFallback,
    keepLoaded, retries, concurrency, batchSize, instances, Option.bind_some]

theorem keeps (held : ∀ m ∈ p.models, m.Held depth) :
    Plan.read.Keeps (depth + 6) p p.toJson (∀ x ∈ p.floats, x.ReadsBack) := by
  have models : (Reader.list Model.read).Keeps (depth + 5) p.models
      (.array (p.models.map Model.toJson)) (∀ m ∈ p.models, ∀ x ∈ m.floats, x.ReadsBack) :=
    Reader.keeps_list (fun m => ∀ x ∈ m.floats, x.ReadsBack) (fun m member => (held m member).keeps)
  intro written alike
  obtain ⟨r, found, holds⟩ := Record.exists_holds (depth + 5) alike distinct_fields fields
  have kept : r.defaulted "models" (Reader.list Model.read) [] = some p.models ↔ _ :=
    holds.defaulted_iff "models" (by simp) (by simp [fields]) models
  rw [read_eq found rfl holds, floats, List.forall_mem_flatMap, ← kept]
  exact bind_make_eq_some_iff (f := Plan.models) (fun _ => rfl) rfl

theorem ofText_eq_ok_iff {text : String} :
    ofText text = .ok p ↔ Reader.ofText? Plan.read text = some p ∧ p.fault? = none := by
  unfold ofText checked
  cases Reader.ofText? Plan.read text with
  | none => exact ⟨nofun, fun found => nomatch found.1⟩
  | some q =>
    cases sound : q.fault? with
    | none =>
      simp only [sound]
      refine ⟨?_, ?_⟩
      · rintro ⟨⟩
        exact ⟨rfl, sound⟩
      · rintro ⟨⟨⟩, -⟩
        rfl
    | some fault =>
      simp only [sound]
      refine ⟨nofun, ?_⟩
      · rintro ⟨⟨⟩, faultless⟩
        rw [sound] at faultless
        cases faultless

/-- Of a plan that was read from a text all floats are finite, and whatever text is written of it,
its objects in any order, reads back as the plan exactly when no float of it is lost. -/
theorem rereads_iff {text : String} (found : ofText text = .ok p) {written : Json}
    (alike : Alike p.toJson written) : (∀ x ∈ p.floats, x.isFinite = true) ∧
      (ofText written.write = .ok p ↔ ∀ x ∈ p.floats, x.ReadsBack) := by
  obtain ⟨read, sound⟩ := ofText_eq_ok_iff.mp found
  obtain ⟨document, -, read⟩ := Option.bind_eq_some_iff.mp read
  have held : ∀ m ∈ p.models, m.Held 121 := held_of_read read
  constructor
  · intro x member
    obtain ⟨m, model, member⟩ := List.mem_flatMap.mp member
    obtain ⟨a, axis, member⟩ := List.mem_flatMap.mp member
    obtain ⟨v, value, member⟩ := List.mem_flatMap.mp member
    exact ((held m model).axes a axis v value).finite x member
  · rw [ofText_eq_ok_iff, Reader.ofText?_write, and_iff_left sound]
    exact keeps held written alike

/-- A model as an array of its fields, a launch as an object, an unknown field and a key twice. -/
def lenientText : String :=
  "\x7b\"by\": 1, \"launch_mode\": \x7b\"remote\": null\x7d, " ++
    "\"models\": [[\"m\", true, [[\"rate\", [2, 0.5, \x7b\"b\": 1, \"a\": null, \"b\": -0.0\x7d]]]]]\x7d"

def lenient : Plan where
  launch := .remote
  models :=
    [{ name := "m"
       cpuOnly := true
       axes := [⟨"rate", [.int 2, .float ⟨0x3fe0000000000000⟩,
         .mapping [("a", .null), ("b", .float ⟨0x8000000000000000⟩)]]⟩] }]

theorem rereads_iff_lenient : ofText lenientText = .ok lenient ∧
    ∃ ms, lenient.toJson = .object ms ∧ ofText (Json.object ms.reverse).write = .ok lenient := by
  have found : ofText lenientText = .ok lenient := by decide +kernel
  refine ⟨found, _, rfl, ?_⟩
  exact (rereads_iff found (.of_perm (List.reverse_perm _).symm)).2.mpr (by decide +kernel)

end Plan
end ServingSweep
