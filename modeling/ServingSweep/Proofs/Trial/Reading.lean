import ServingSweep.Proofs.Instant
import ServingSweep.Proofs.Uuid
import ServingSweep.Proofs.Value
import ServingSweep.Trial.Json

/-!
Trials read back from their JSON. Whatever the marks made of a trial, and in whatever order the
members of its objects are written, it reads back with every field unchanged exactly when its
configuration is legible and the floats of its metrics read back. A metric that is not finite never
does, so a trial that completed with one is lost.
-/

namespace ServingSweep
open Json (Reader Record Alike)
variable {depth : Nat}

/-! ### Parts of a trial -/

theorem Uuid.keeps (u : Uuid) : Uuid.read.Keeps depth u (.text u.toString) True :=
  Reader.keeps_of_text Uuid.ofString? u.ofString?_toString

theorem Instant.keeps (i : Instant) : Instant.read.Keeps depth i (.text i.toString) True :=
  Reader.keeps_of_text Instant.ofString? i.ofString?_toString

theorem Status.keeps (s : Status) : Status.read.Keeps depth s (.text s.name) True :=
  Reader.keeps_oneOf s.lookup_name

theorem Tag.keeps (t : Tag) : Tag.read.Keeps depth t (.text t.name) True :=
  Reader.keeps_oneOf t.lookup_name

theorem Load.keeps {l : Load} (ordered : l.flags.Ordered) :
    Load.read.Keeps (depth + 2) l l.toJson True := by
  have flags : Load.readFlags.Keeps (depth + 1) l.flags (Json.ofKeyed Json.text l.flags)
      (∀ e ∈ l.flags, True) :=
    Reader.keeps_keyed (fun _ => True) ordered (fun e _ => Reader.keeps_text e.2)
  intro written alike
  obtain ⟨r, found, holds⟩ := Record.exists_holds (depth + 1) alike
    (show ["batch_size", "concurrency", "flags", "model_name"].Nodup by decide)
    ["model_name", "batch_size", "concurrency", "flags"]
  have variant := holds.required "model_name" (by simp) (by simp) (Reader.keeps_text l.variant)
  have batchSize := holds.required "batch_size" (by simp) (by simp) (Reader.keeps_word32 l.batchSize)
  have concurrency :=
    holds.required "concurrency" (by simp) (by simp) (Reader.keeps_word32 l.concurrency)
  have kept : r.defaulted "flags" Load.readFlags [] = some l.flags :=
    (holds.defaulted_iff "flags" (by simp) (by simp) flags).mpr (fun _ _ => trivial)
  refine iff_of_true ?_ trivial
  simp only [Load.read, found, variant, batchSize, concurrency, kept, Option.bind_eq_bind,
    Option.bind_some]

theorem Variant.keeps {v : Variant} (canonical : v.config.Canonical) :
    Variant.read.Keeps (depth + 2) v v.toJson (∀ e ∈ v.config, e.2.Legible depth) := by
  have tags : (Reader.list Tag.read).Keeps (depth + 1) v.tags
      (.array (v.tags.map (fun t => .text t.name))) (∀ t ∈ v.tags, True) :=
    Reader.keeps_list (fun _ => True) (fun t _ => t.keeps)
  intro written alike
  obtain ⟨r, found, holds⟩ := Record.exists_holds (depth + 1) alike
    (show ["config", "name", "tags"].Nodup by decide) ["name", "config", "tags"]
  have name := holds.required "name" (by simp) (by simp) (Reader.keeps_text v.name)
  have config := holds.required_iff "config" (by simp) (by simp) (Config.keeps canonical)
  have kept : r.required "tags" (Reader.list Tag.read) = some v.tags :=
    (holds.required_iff "tags" (by simp) (by simp) tags).mpr (fun _ _ => trivial)
  simp only [Variant.read, found, name, kept, Option.bind_eq_bind, Option.bind_some, ← config]
  constructor
  · intro all
    obtain ⟨c, same, whole⟩ := Option.bind_eq_some_iff.mp all
    rw [same, ← congrArg Variant.config (Option.some.inj whole)]
  · intro same
    rw [same]
    rfl

theorem Metrics.keeps {m : Metrics} (ordered : m.values.Ordered) :
    Metrics.read.Keeps (depth + 2) m m.toJson (∀ e ∈ m.values, e.2.ReadsBack) := by
  have values : (Reader.keyed Reader.real).Keeps (depth + 1) m.values
      (Json.ofKeyed Json.real m.values) (∀ e ∈ m.values, e.2.ReadsBack) :=
    Reader.keeps_keyed Binary64.ReadsBack ordered (fun e _ => e.2.keeps_real)
  intro written alike
  obtain ⟨r, found, holds⟩ := Record.exists_holds (depth + 1) alike
    (show ["metrics"].Nodup by decide) ["metrics"]
  have kept := holds.required_iff "metrics" (by simp) (by simp) values
  simp only [Metrics.read, found, Option.bind_eq_bind, Option.bind_some, ← kept]
  constructor
  · intro all
    obtain ⟨values, same, whole⟩ := Option.bind_eq_some_iff.mp all
    rw [same, ← congrArg Metrics.values (Option.some.inj whole)]
  · intro same
    rw [same]
    rfl

theorem Metrics.isFinite_of_read {m n : Metrics} {written : Json} (alike : Alike m.toJson written)
    (found : Metrics.read (depth + 2) written.document = some n) :
    ∀ e ∈ m.values, e.2.isFinite = true := by
  obtain ⟨r, record, holds⟩ := Record.exists_holds (depth + 1) alike
    (show ["metrics"].Nodup by decide) ["metrics"]
  simp only [Metrics.read, record, Option.bind_eq_bind, Option.bind_some] at found
  obtain ⟨values, found, -⟩ := Option.bind_eq_some_iff.mp found
  obtain ⟨other, alike, slot⟩ := holds.fields _ (List.mem_singleton_self _)
    (List.mem_singleton_self "metrics")
  rw [Record.required_of_given slot, holds.depth] at found
  intro e member
  obtain ⟨value, x, alike, read⟩ := Reader.exists_read_of_keyed alike found e member
  exact Binary64.isFinite_of_read alike read

/-! ### Whole trials -/

/-- What the types of a probe hold: a number of 64 bits, and maps with their keys in order. -/
structure Probe.Canonical (p : Probe) : Prop where
  number : p.number < 0x10000000000000000
  config : p.variant.config.Canonical
  flags : p.load.flags.Ordered

structure Trial.Canonical (t : Trial) : Prop where
  probe : t.probe.Canonical
  result : ∀ m ∈ t.result, m.values.Ordered

namespace Trial

/-- The trials there are: a pending one for a probe, and what the marks make of a trial. -/
inductive Made : Trial → Prop
  | fresh (id : Uuid) {probe : Probe} (canonical : probe.Canonical) (created : Instant) :
      Made { id, probe, created }
  | begun {t : Trial} (made : Made t) (now : Instant) : Made (t.begin now)
  | completed {t : Trial} (made : Made t) (now : Instant) {metrics : Metrics}
      (ordered : metrics.values.Ordered) : Made (t.complete now metrics)
  | failed {t : Trial} (made : Made t) (now : Instant) (reason : String) : Made (t.fail now reason)

theorem Made.canonical {t : Trial} (made : Made t) : t.Canonical := by
  induction made with
  | fresh _ canonical => exact ⟨canonical, nofun⟩
  | begun _ _ ih => exact ⟨ih.probe, ih.result⟩
  | completed _ _ ordered ih =>
    refine ⟨ih.probe, fun m member => ?_⟩
    cases member
    exact ordered
  | failed _ _ _ ih => exact ⟨ih.probe, ih.result⟩

theorem distinct_keys : ["created_at", "error", "finished_at", "id", "load_config", "model_config",
    "model_name", "result", "run_id", "started_at", "status", "trial_number"].Nodup := by
  decide

theorem readProbe_iff {t : Trial} (canonical : t.probe.Canonical) {ms : List (String × Json)}
    (shown : t.toJson = .object ms) {r : Record} (holds : r.Holds fields (depth + 2) ms) :
    readProbe r = some t.probe ↔ ∀ e ∈ t.probe.variant.config, e.2.Legible depth := by
  cases shown
  have run := holds.required "run_id" (by simp) (by simp [fields]) t.probe.run.keeps
  have number : r.required "trial_number" Reader.word64 = some t.probe.number :=
    holds.required "trial_number" (by simp) (by simp [fields])
      (Reader.keeps_natural canonical.number canonical.number)
  have model := holds.required "model_name" (by simp) (by simp [fields])
    (Reader.keeps_text t.probe.model)
  have variant := holds.required_iff "model_config" (by simp) (by simp [fields])
    (Variant.keeps canonical.config)
  have load := holds.required "load_config" (by simp) (by simp [fields])
    (Load.keeps canonical.flags)
  rw [← variant]
  simp only [readProbe, run, number, model, load, Option.bind_eq_bind, Option.bind_some]
  constructor
  · intro all
    obtain ⟨v, found, same⟩ := Option.bind_eq_some_iff.mp all
    rw [found, ← congrArg Probe.variant (Option.some.inj same)]
  · intro found
    rw [found]
    rfl

theorem keeps {t : Trial} (canonical : t.Canonical) : Trial.read.Keeps (depth + 3) t t.toJson
    ((∀ e ∈ t.probe.variant.config, e.2.Legible depth) ∧
      ∀ m ∈ t.result, ∀ e ∈ m.values, e.2.ReadsBack) := by
  have instants (o : Option Instant) : Instant.read.nullable.Keeps (depth + 2) o
      (Json.ofOption (fun i => Json.text (Instant.toString i)) o) (∀ i ∈ o, True) :=
    Reader.keeps_nullable (fun _ => True) (fun _ => by simp) (fun i _ => i.keeps)
  have reasons : Reader.text.nullable.Keeps (depth + 2) t.reason
      (Json.ofOption Json.text t.reason) (∀ s ∈ t.reason, True) :=
    Reader.keeps_nullable (fun _ => True) (fun _ => by simp) (fun s _ => Reader.keeps_text s)
  have results : Metrics.read.nullable.Keeps (depth + 2) t.result
      (Json.ofOption Metrics.toJson t.result) (∀ m ∈ t.result, ∀ e ∈ m.values, e.2.ReadsBack) :=
    Reader.keeps_nullable (fun m => ∀ e ∈ m.values, e.2.ReadsBack)
      (fun _ => by simp [Metrics.toJson])
      (fun m member => Metrics.keeps (canonical.result m member))
  intro written alike
  obtain ⟨r, found, holds⟩ := Record.exists_holds (depth + 2) alike distinct_keys fields
  have id := holds.required "id" (by simp) (by simp [fields]) t.id.keeps
  have probe := readProbe_iff canonical.probe rfl holds
  have status := holds.required "status" (by simp) (by simp [fields]) t.status.keeps
  have result := holds.optional_iff "result" (by simp) (by simp [fields]) results
  have created := holds.required "created_at" (by simp) (by simp [fields]) t.created.keeps
  have started := (holds.optional_iff "started_at" (by simp) (by simp [fields])
    (instants t.started)).mpr (fun _ _ => trivial)
  have finished := (holds.optional_iff "finished_at" (by simp) (by simp [fields])
    (instants t.finished)).mpr (fun _ _ => trivial)
  have reason := (holds.optional_iff "error" (by simp) (by simp [fields]) reasons).mpr
    (fun _ _ => trivial)
  rw [← probe, ← result]
  simp only [Trial.read, found, id, status, created, started, finished, reason,
    Option.bind_eq_bind, Option.bind_some]
  -- Only the probe and the result may come out different.
  constructor
  · intro all
    obtain ⟨p, probe, all⟩ := Option.bind_eq_some_iff.mp all
    obtain ⟨m, measured, whole⟩ := Option.bind_eq_some_iff.mp all
    rw [probe, measured, ← Option.some.inj whole]
    exact ⟨rfl, rfl⟩
  · rintro ⟨probe, measured⟩
    rw [probe, measured]
    rfl

/-- Of a trial with a metric that is not finite nothing is read. -/
theorem isFinite_of_read {t u : Trial} {written : Json} (alike : Alike t.toJson written)
    (found : Trial.read (depth + 3) written.document = some u) :
    ∀ m ∈ t.result, ∀ e ∈ m.values, e.2.isFinite = true := by
  obtain ⟨r, record, holds⟩ := Record.exists_holds (depth + 2) alike distinct_keys fields
  obtain ⟨other, alike, slot⟩ :=
    holds.fields ("result", Json.ofOption Metrics.toJson t.result) (by simp) (by simp [fields])
  intro m completed
  rw [completed] at alike
  have shown : other ≠ .null := fun null => by
    have absent := alike.null_iff.mp null
    simp [Json.ofOption, Metrics.toJson] at absent
  -- The result comes after the identifier, the probe and the status.
  change (Record.of? fields (depth + 2 + 1) written.document).bind _ = _ at found
  rw [record, Option.bind_some] at found
  obtain ⟨_, _, found⟩ := Option.bind_eq_some_iff.mp found
  obtain ⟨_, _, found⟩ := Option.bind_eq_some_iff.mp found
  obtain ⟨_, _, found⟩ := Option.bind_eq_some_iff.mp found
  obtain ⟨o, found, -⟩ := Option.bind_eq_some_iff.mp found
  rw [Record.optional_of_given slot, holds.depth, Reader.nullable_of_ne_null shown] at found
  obtain ⟨n, read, -⟩ := Option.map_eq_some_iff.mp found
  exact Metrics.isFinite_of_read alike read

/-- The text of a trial, its objects in any order, reads back as the trial exactly when the
configuration nests to 124 levels at most and no float in it or in the metrics is lost. -/
theorem survives_iff {t : Trial} (made : Made t) {written : Json} (alike : Alike t.toJson written) :
    Reader.ofText? Trial.read written.write = some t ↔
      (∀ e ∈ t.probe.variant.config, e.2.height ≤ 124 ∧ ∀ x ∈ e.2.floats, x.ReadsBack) ∧
        ∀ m ∈ t.result, ∀ e ∈ m.values, e.2.ReadsBack := by
  rw [Reader.ofText?_write]
  exact keeps made.canonical written alike

def sample : Trial where
  id := ⟨2⟩
  probe :=
    { run := ⟨1⟩
      number := 7
      model := "m"
      variant := ⟨"m_config_0", [("rate", .float ⟨0x3fe0000000000000⟩)], []⟩
      load := { variant := "m_config_0", batchSize := 1, concurrency := 4 } }
  created := .epoch

theorem made_sample : Made sample := by
  have canonical : sample.probe.Canonical :=
    ⟨by decide, ⟨List.pairwise_singleton _ _, trivial, trivial⟩, .nil⟩
  exact .fresh ⟨2⟩ canonical .epoch

def measured (throughput : Binary64) : Trial :=
  (sample.begin .epoch).complete .epoch (Metrics.empty.set Metrics.throughputTag throughput)

theorem made_measured (throughput : Binary64) : Made (measured throughput) :=
  .completed (.begun made_sample .epoch) .epoch (List.pairwise_singleton _ _)

theorem survives_iff_measured : ∃ ms, (measured ⟨0x3ff8000000000000⟩).toJson = .object ms ∧
    Reader.ofText? Trial.read (Json.object ms.reverse).write =
      some (measured ⟨0x3ff8000000000000⟩) ∧
    Reader.ofText? Trial.read (measured ⟨0x7ff0000000000000⟩).toJson.write ≠
      some (measured ⟨0x7ff0000000000000⟩) := by
  refine ⟨_, rfl, ?_, ?_⟩
  · exact (survives_iff (made_measured _) (.of_perm (List.reverse_perm _).symm)).mpr
      (by decide +kernel)
  · exact fun back =>
      absurd ((survives_iff (made_measured _) (.same _)).mp back) (by decide +kernel)

/-- A trial that completed with a metric that is not a number is not read back at all. -/
theorem not_always_survives : Made (measured ⟨0x7ff8000000000000⟩) ∧
    Reader.ofText? Trial.read (measured ⟨0x7ff8000000000000⟩).toJson.write = none := by
  refine ⟨made_measured _, ?_⟩
  rw [Reader.ofText?_write]
  decide +kernel

end Trial

end ServingSweep
