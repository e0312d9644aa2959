import ServingSweep.Proofs.Sweep.Play
import ServingSweep.Search
import ServingSweep.Sweep.Replay

/-!
A search under a driver is the nested product of its server sweep and its load sweeps: `Nested`
runs the two levels one inside the other without any buffer, turn or current pair, and
`plays_of_nested` shows that the search gives out exactly its items, numbered in order. Where the
variants are prepared, `replays` tells what the server sweep receives.
-/

namespace ServingSweep
namespace Search
open Source FiniteSource
variable {σ τ : Type}

/-- The variants of a nested run, each with the loads tried on it and their results. -/
abbrev Parts := List (Variant × List (Load × Batch))

def flat (parts : Parts) : List (Variant × Load × Batch) :=
  parts.flatMap (fun part => part.2.map (fun tried => (part.1, tried)))

/-- The probes of a line of loads, numbered from `n` on, with the results of each. -/
def numbered (run : Uuid) (model : String) :
    Nat → List (Variant × Load × Batch) → List (Probe × Batch)
  | _, [] => []
  | n, (variant, load, batch) :: rest =>
    (⟨run, n, model, variant, load⟩, batch) :: numbered run model (n + 1) rest

/-- From a pull of the server sweep on: a fresh load sweep runs to its end for each variant, then
the server sweep is fed all results of that variant at once and pulled again. -/
inductive Nested [Source σ Variant] [Source τ Load] (makeLoad : List Variant → Variant → τ) :
    List Variant → Pulled σ Variant → Parts → σ → World → Prop where
  | ended (opened : List Variant) (server : σ) (w : World) :
      Nested makeLoad opened ⟨.ok none, server, w⟩ [] server w
  | variant (variant : Variant) {opened : List Variant} {server last : σ} {sweep : τ}
      {w drained later : World} {t : List (Load × Batch)} {rest : Parts}
      (loads : Plays (Source.pull (makeLoad opened variant) (w.say (.profiling variant.name)))
        t sweep drained)
      (further :
        let results := t.flatMap Prod.snd
        let fed := Source.feed server results
          (drained.say (.sweepEnded variant.name results.length))
        Nested makeLoad (variant :: opened) (Source.pull fed.1 fed.2) rest last later) :
      Nested makeLoad opened ⟨.ok (some variant), server, w⟩ ((variant, t) :: rest) last later

/-! ### Numbers -/

theorem length_numbered (run : Uuid) (model : String) (n : Nat)
    (line : List (Variant × Load × Batch)) : (numbered run model n line).length = line.length := by
  induction line generalizing n with
  | nil => rfl
  | cons _ line ih => simp [numbered, ih]

theorem numbered_append (run : Uuid) (model : String) (n : Nat)
    (front back : List (Variant × Load × Batch)) :
    numbered run model n (front ++ back) =
      numbered run model n front ++ numbered run model (n + front.length) back := by
  induction front generalizing n with
  | nil => rfl
  | cons _ front ih =>
    simp only [List.cons_append, numbered, ih, List.length_cons]
    rw [show n + 1 + front.length = n + (front.length + 1) by omega]

theorem flat_cons (variant : Variant) (t : List (Load × Batch)) (rest : Parts) :
    flat ((variant, t) :: rest) = t.map (fun tried => (variant, tried)) ++ flat rest := rfl

/-! ### One pull -/

section Steps
variable [FiniteSource σ Variant] [Source τ Load]

/-- What a step comes to when every variant that is opened is gone on with. -/
def Step.finish : Step σ τ → Pulled (Search σ τ) Probe
  | .finished pulled => pulled
  | .onward s w => s.steps w

theorem steps_eq (s : Search σ τ) (w : World) : s.steps w = (s.step w).finish := by
  cases h : s.step w with
  | finished pulled => exact steps_finished h
  | onward next later => exact steps_onward h

theorem step_of_current {s : Search σ τ} {variant : Variant} {sweep : τ}
    (current : s.current = some (variant, sweep)) (w : World) :
    s.step w = s.stepIn variant sweep w := by
  simp only [step, current]

theorem step_of_none {s : Search σ τ} (current : s.current = none) (w : World) :
    s.step w = s.openNext w := by
  simp only [step, current]

structure Drained (s : Search σ τ) (t : List (Load × Batch)) (s' : Search σ τ) : Prop where
  model : s'.model = s.model
  run : s'.run = s.run
  server : s'.server = s.server
  makeLoad : s'.makeLoad = s.makeLoad
  opened : s'.opened = s.opened
  issued : s'.issued = s.issued + t.length
  gathered : s'.gathered = s.gathered ++ t.flatMap Prod.snd

/-- The loads of a variant come out of the search as its load sweep alone gives them out; after
the last of them the search closes the variant and goes on. -/
theorem plays_loads {variant : Variant} {p : Pulled τ Load} {t : List (Load × Batch)} {ended : τ}
    {drained : World} (play : Plays p t ended drained) :
    ∀ {s : Search σ τ} {sweep : τ} {w : World}, s.current = some (variant, sweep) →
      Source.pull sweep w = p → ∃ s', Drained s t s' ∧
      ∀ {rest : List (Probe × Batch)} {last : Search σ τ} {later : World},
        let closed := s'.close variant ended drained
        Plays (closed.1.openNext closed.2).finish rest last later →
        Plays (s.step w).finish
          (numbered s.run s.model s.issued (t.map (fun tried => (variant, tried))) ++ rest)
          last later := by
  induction play with
  | ended ended drained =>
    intro s sweep w current pulled
    refine ⟨{ s with current := some (variant, ended) },
      ⟨rfl, rfl, rfl, rfl, rfl, rfl, (List.append_nil _).symm⟩, ?_⟩
    intro rest last later closed further
    rw [step_of_current current]
    simp only [stepIn, pulled]
    exact further
  | @item load batch given _ w₁ _ t _ ih =>
    intro s sweep w current pulled
    let fed := Source.feed given batch w₁
    -- the search after the probe was given out, fed and pulled again: no call was out of turn
    let s₁ : Search σ τ :=
      { s with
        current := some (variant, fed.1)
        pending := s.pending.append batch
        issued := s.issued + 1
        turn := s.turn.yielded.accepted.pulled.start }
    obtain ⟨s', drained, goesOn⟩ := ih (s := s₁) rfl rfl
    refine ⟨s', ⟨drained.model, drained.run, drained.server, drained.makeLoad, drained.opened,
      ?_, ?_⟩, ?_⟩
    · rw [drained.issued, List.length_cons]
      change s.issued + 1 + t.length = s.issued + (t.length + 1)
      omega
    · have before : s₁.gathered = s.gathered ++ batch := Journal.toList_append _ _
      rw [drained.gathered, before, List.flatMap_cons, List.append_assoc]
    · intro rest last later closed further
      have again := goesOn further
      rw [← steps_eq] at again
      rw [step_of_current current]
      simp only [stepIn, pulled]
      exact .item _ batch again

/-- The search gives out what the nested run of its two levels gives out. -/
theorem plays_of_nested {makeLoad : List Variant → Variant → τ} {opened : List Variant}
    {p : Pulled σ Variant} {parts : Parts} {server : σ} {later : World}
    (nested : Nested makeLoad opened p parts server later) :
    ∀ {s : Search σ τ} {w : World}, s.makeLoad = makeLoad → s.opened = opened →
      Source.pull s.server w = p → s.current = none → s.gathered = [] →
      ∃ last : Search σ τ, last.server = server ∧ last.current = none ∧
        last.issued = s.issued + (flat parts).length ∧
        Plays (s.openNext w).finish (numbered s.run s.model s.issued (flat parts)) last later := by
  induction nested with
  | ended opened server w₁ =>
    intro s w _ _ pulled current _
    refine ⟨{ s with server := server }, rfl, current, rfl, ?_⟩
    simp only [openNext, pulled]
    exact .ended _ _
  | @variant variant opened server _ sweep w₁ drained _ t rest loads _ ih =>
    intro s w made before pulled current empty
    subst made before
    -- the search once the variant is opened
    let s₁ : Search σ τ :=
      { s with
        server := server
        current := some (variant, s.makeLoad s.opened variant)
        opened := variant :: s.opened }
    obtain ⟨s', left, goesOn⟩ := plays_loads loads (s := s₁) rfl rfl
    have results : s'.gathered = t.flatMap Prod.snd := by
      rw [left.gathered, show s₁.gathered = [] from empty, List.nil_append]
    have count : s'.pending.length = (t.flatMap Prod.snd).length := by
      rw [← results]
      exact (Journal.length_toList _).symm
    let closed := s'.close variant sweep drained
    obtain ⟨last, server, none, issued, further⟩ := ih (s := closed.1) (w := closed.2)
      left.makeLoad left.opened
      (by simp only [closed, close, results, count, left.server]; rfl) rfl rfl
    have number : closed.1.issued = s.issued + t.length := left.issued
    rw [number, show closed.1.run = s.run from left.run,
      show closed.1.model = s.model from left.model] at further
    refine ⟨last, server, none, ?_, ?_⟩
    · rw [issued, number, flat_cons, List.length_append, List.length_map, Nat.add_assoc]
    · have opens : (s.openNext w).finish =
          (s₁.step (w₁.say (.profiling variant.name))).finish := by
        rw [← steps_eq]
        simp only [openNext, pulled]
        rfl
      rw [opens, flat_cons, numbered_append, List.length_map]
      exact goesOn further

theorem plays_from_start {makeLoad : List Variant → Variant → τ} {server ended : σ} {w later : World}
    {parts : Parts} (nested : Nested makeLoad [] (Source.pull server w) parts ended later)
    (model : String) (run : Uuid) :
    ∃ last : Search σ τ, last.server = ended ∧
      Plays (Source.pull
          ({ model := model, run := run, server := server, makeLoad := makeLoad } : Search σ τ) w)
        (numbered run model 0 (flat parts)) last later := by
  obtain ⟨last, same, -, -, play⟩ := plays_of_nested nested
    (s := { model := model, run := run, server := server, makeLoad := makeLoad
            turn := ({} : Turn).pulled.start }) rfl rfl rfl rfl rfl
  rw [← step_of_none rfl, ← steps_eq] at play
  exact ⟨last, same, play⟩

end Steps

/-! ### Driven searches -/

def answering (d : Driver Probe) (run : Uuid) (model : String) (variant : Variant)
    (seen : List (Probe × Batch)) : Driver Load := fun past load =>
  d (seen ++ numbered run model seen.length (past.map (fun tried => (variant, tried))))
    ⟨run, seen.length + past.length, model, variant, load⟩

theorem answers_answering {d : Driver Probe} {run : Uuid} {model : String} {variant : Variant}
    {seen : List (Probe × Batch)} {past t : List (Load × Batch)} :
    (answering d run model variant seen).Answers past t ↔
      d.Answers (seen ++ numbered run model seen.length (past.map (fun tried => (variant, tried))))
        (numbered run model (seen.length + past.length)
          (t.map (fun tried => (variant, tried)))) := by
  induction t generalizing past with
  | nil => exact Iff.rfl
  | cons tried t ih =>
    obtain ⟨load, batch⟩ := tried
    have further := @ih (past ++ [(load, batch)])
    rw [List.map_append, numbered_append, List.length_map, List.length_append,
      ← List.append_assoc, ← Nat.add_assoc] at further
    exact and_congr Iff.rfl further

/-- A driver answers the loads of a variant, and then those of the variants after it. -/
theorem answers_flat_cons {d : Driver Probe} {run : Uuid} {model : String} {variant : Variant}
    {seen : List (Probe × Batch)} {t : List (Load × Batch)} {rest : Parts} :
    d.Answers seen (numbered run model seen.length (flat ((variant, t) :: rest))) ↔
      (answering d run model variant seen).Answers [] t ∧
        let after := seen ++ numbered run model seen.length (t.map (fun tried => (variant, tried)))
        d.Answers after (numbered run model after.length (flat rest)) := by
  dsimp only
  rw [flat_cons, numbered_append, Driver.answers_append, answers_answering, List.map_nil, numbered,
    List.append_nil, List.length_nil, Nat.add_zero, List.length_append, length_numbered]

/-- A driver has no second nested run. -/
theorem nested_unique [Source σ Variant] [Source τ Load] {makeLoad : List Variant → Variant → τ}
    {d : Driver Probe} {run : Uuid} {model : String} {opened : List Variant} {p : Pulled σ Variant}
    {parts parts' : Parts} {last last' : σ} {later later' : World}
    (nested : Nested makeLoad opened p parts last later)
    (nested' : Nested makeLoad opened p parts' last' later') {seen : List (Probe × Batch)}
    (answers : d.Answers seen (numbered run model seen.length (flat parts)))
    (answers' : d.Answers seen (numbered run model seen.length (flat parts'))) :
    parts = parts' ∧ last = last' ∧ later = later' := by
  induction nested generalizing parts' seen with
  | ended => cases nested'; exact ⟨rfl, rfl, rfl⟩
  | variant variant loads further ih =>
    cases nested' with
    | variant _ loads' further' =>
      obtain ⟨tried, after⟩ := answers_flat_cons.mp answers
      obtain ⟨tried', after'⟩ := answers_flat_cons.mp answers'
      obtain ⟨rfl, rfl, rfl⟩ := plays_unique loads loads' tried tried'
      obtain ⟨rfl, states⟩ := ih further' after after'
      exact ⟨rfl, states⟩

section Existence
variable [FiniteSource σ Variant] [FiniteSource τ Load]

/-- Every driver has a nested run to its end, where neither level fails. -/
theorem exists_nested (d : Driver Probe) (run : Uuid) (model : String)
    {makeLoad : List Variant → Variant → τ}
    (loads : ∀ opened variant, NeverFails (makeLoad opened variant))
    (server : σ) (w : World) (opened : List Variant) (seen : List (Probe × Batch))
    (sound : NeverFails server) :
    ∃ parts last later, Nested makeLoad opened (Source.pull server w) parts last later ∧
      d.Answers seen (numbered run model seen.length (flat parts)) := by
  generalize bound : ahead server = n
  induction n using Nat.strongRecOn generalizing server w opened seen with
  | ind n ih =>
    have reached : After server [.pulled (Source.pull server w).result]
        (Source.pull server w).source := After.start.pull w
    match h : Source.pull server w with
    | ⟨.error fault, s, w₁⟩ => exact absurd (by rw [h]) (sound [] server w fault .start)
    | ⟨.ok none, s, w₁⟩ => exact ⟨[], s, w₁, .ended opened s w₁, trivial⟩
    | ⟨.ok (some variant), s, w₁⟩ =>
      have fewer := ahead_pull_lt server w variant (by rw [h])
      rw [h] at fewer reached
      change ahead s < _ at fewer
      obtain ⟨t, sweep, drained, play, answers⟩ := exists_plays
        (answering d run model variant seen) (makeLoad opened variant)
        (w₁.say (.profiling variant.name)) [] (loads opened variant)
      let results := t.flatMap Prod.snd
      let fed := Source.feed s results (drained.say (.sweepEnded variant.name results.length))
      have still : ahead fed.1 ≤ ahead s := ahead_feed_le s results _
      obtain ⟨rest, last, later, nested, after⟩ := ih _ (by omega) fed.1 fed.2
        (variant :: opened)
        (seen ++ numbered run model seen.length (t.map (fun tried => (variant, tried))))
        (neverFails_of_after sound (reached.feed results _)) rfl
      exact ⟨(variant, t) :: rest, last, later, .variant variant play nested,
        answers_flat_cons.mpr ⟨answers, after⟩⟩

end Existence

end Search

theorem Course.neverFails {α : Type} (c : Course α) : Source.NeverFails c := by
  refine Source.neverFails_of_invariant (fun _ => True) trivial (fun _ _ _ => trivial)
    (fun _ _ _ _ => trivial) ?_
  intro c w fault _
  change (c.pull w).result ≠ .error fault
  unfold Course.pull
  dsimp only
  split
  · exact fun impossible => nomatch impossible
  · exact fun impossible => nomatch impossible

namespace Search
open Source

/-- A search over any finite server sweep and any making of load sweeps, under any driver: it gives
out the loads of each variant as a fresh load sweep alone gives them out, numbered without gaps,
then ends; the server sweep is fed once for each variant, all results of that variant in order. -/
theorem composes {σ : Type} [FiniteSource σ Variant] (server : σ)
    (makeLoad : List Variant → Variant → LoadSweep) (model : String) (run : Uuid)
    (d : Driver Probe) (w : World) (sound : NeverFails server) :
    ∃ (parts : Parts) (last : Search σ LoadSweep) (later : World),
      Nested makeLoad [] (Source.pull server w) parts last.server later ∧
      Plays (Source.pull
          ({ model := model, run := run, server := server, makeLoad := makeLoad } :
            Search σ LoadSweep) w)
        (numbered run model 0 (flat parts)) last later ∧
      d.Answers [] (numbered run model 0 (flat parts)) := by
  obtain ⟨parts, ended, later, nested, answers⟩ := exists_nested d run model
    (fun opened variant => Course.neverFails (makeLoad opened variant)) server w [] [] sound
  obtain ⟨last, rfl, play⟩ := plays_from_start nested model run
  exact ⟨parts, last, later, nested, play, answers⟩

def twoVariants : Course Variant where
  owner := "m"
  rows := Rows.ofBlocks (fun _ => ()) [⟨"a", [], []⟩, ⟨"b", [], []⟩]
  earlyExit := true
  progress := { dimension := .batchSize, metric := "perf_throughput" }

/-- The power of two as a throughput. -/
def power (n : Nat) : Batch :=
  [some ⟨[("perf_throughput", ⟨UInt64.ofNat (0x3FF0000000000000 + n * 0x10000000000000)⟩)]⟩]

/-- Throughput rises from load to load, so neither level exits early. -/
theorem composes_twoVariants :
    let makeLoad : List Variant → Variant → LoadSweep :=
      fun _ variant => LoadSweep.of variant.name [1] [1, 2] true "perf_throughput" []
    let d : Driver Probe := fun _ probe => power probe.number
    let parts : Parts :=
      [(⟨"a", [], []⟩, [(⟨"a", 1, 1, []⟩, power 0), (⟨"a", 1, 2, []⟩, power 1)]),
        (⟨"b", [], []⟩, [(⟨"b", 1, 1, []⟩, power 2), (⟨"b", 1, 2, []⟩, power 3)])]
    NeverFails twoVariants ∧
    ∃ (last : Search (Course Variant) LoadSweep) (later : World),
      Nested makeLoad [] (Source.pull twoVariants {}) parts last.server later ∧
      Plays (Source.pull
          ({ model := "m", run := ⟨0⟩, server := twoVariants, makeLoad := makeLoad } :
            Search (Course Variant) LoadSweep) {})
        (numbered ⟨0⟩ "m" 0 (flat parts)) last later ∧
      d.Answers [] (numbered ⟨0⟩ "m" 0 (flat parts)) := by
  intro makeLoad d parts
  obtain ⟨all, last, later, nested, plays, answers⟩ :=
    composes twoVariants makeLoad "m" ⟨0⟩ d {} (Course.neverFails _)
  have shown : ∃ last later, Nested makeLoad [] (Source.pull twoVariants {}) parts last later :=
    ⟨_, _, .variant _ (.item _ _ (.item _ _ (.ended _ _)))
      (.variant _ (.item _ _ (.item _ _ (.ended _ _))) (.ended _ _ _))⟩
  obtain ⟨_, _, shown⟩ := shown
  have answered : d.Answers [] (numbered ⟨0⟩ "m" 0 (flat parts)) := by
    simp [Driver.Answers, parts, d, flat, numbered]
  obtain ⟨rfl, -, -⟩ := nested_unique nested shown answers answered
  exact ⟨Course.neverFails _, last, later, nested, plays, answers⟩

/-! ### Prepared variants -/

theorem neverFails_prepared (variants : List Variant) :
    NeverFails ({ coming := variants.map .ok } : Replay) := by
  refine neverFails_of_invariant (fun r => ∃ left : List Variant, r.coming = left.map .ok)
    ⟨variants, rfl⟩ ?_ (fun _ _ _ prepared => prepared) ?_
  · rintro r w ⟨left, prepared⟩
    exact ⟨left.tail, (r.coming_pull w).trans (by rw [prepared, List.map_tail])⟩
  · rintro r w fault ⟨left, prepared⟩ failed
    change (r.pull w).result = _ at failed
    cases left <;> simp [Replay.pull, prepared] at failed

/-- What is left to replay are the variants of the run, and each of them comes with one batch. -/
theorem replay_of_nested {makeLoad : List Variant → Variant → LoadSweep} {opened : List Variant}
    {p : Pulled Replay Variant} {parts : Parts} {last : Replay} {later : World}
    (nested : Nested makeLoad opened p parts last later) :
    ∀ {r : Replay} {w : World}, Source.pull r w = p →
      r.coming = parts.map (fun part => .ok part.1) ∧
      last.received.toList =
        r.received.toList ++ parts.map (fun part => part.2.flatMap Prod.snd) := by
  induction nested with
  | ended =>
    intro r w pulled
    change r.pull w = _ at pulled
    have received := r.received_pull w
    rw [pulled] at received
    exact ⟨Replay.coming_of_ended (congrArg Pulled.result pulled), by rw [received]; simp⟩
  | @variant variant opened server _ sweep w₁ drained _ t rest loads further ih =>
    intro r w pulled
    change r.pull w = _ at pulled
    have coming := r.coming_pull w
    have received := r.received_pull w
    rw [pulled] at coming received
    obtain ⟨left, told⟩ := ih rfl
    refine ⟨?_, ?_⟩
    · rw [Replay.coming_of_given (congrArg Pulled.result pulled), ← coming]
      exact congrArg _ left
    · have fed : (Source.feed server (t.flatMap Prod.snd) (drained.say (.sweepEnded variant.name
          (t.flatMap Prod.snd).length))).1.received.toList =
            server.received.toList ++ [t.flatMap Prod.snd] := Journal.toList_push _ _
      rw [told, fed, ← received, List.append_assoc]
      rfl

/-- A search over prepared variants goes through all of them, and its source receives for each the
results of all its loads, in one batch. -/
theorem replays (variants : List Variant) (makeLoad : List Variant → Variant → LoadSweep)
    (model : String) (run : Uuid) (d : Driver Probe) (w : World) :
    let server : Replay := { coming := variants.map .ok }
    ∃ (parts : Parts) (last : Search Replay LoadSweep) (later : World),
      Nested makeLoad [] (Source.pull server w) parts last.server later ∧
      Plays (Source.pull
          ({ model := model, run := run, server := server, makeLoad := makeLoad } :
            Search Replay LoadSweep) w)
        (numbered run model 0 (flat parts)) last later ∧
      d.Answers [] (numbered run model 0 (flat parts)) ∧
      parts.map Prod.fst = variants ∧
      last.server.received.toList = parts.map (fun part => part.2.flatMap Prod.snd) := by
  intro server
  obtain ⟨parts, ended, later, nested, answers⟩ := exists_nested d run model
    (fun opened variant => Course.neverFails (makeLoad opened variant)) server w [] []
    (neverFails_prepared variants)
  obtain ⟨last, rfl, play⟩ := plays_from_start nested model run
  obtain ⟨coming, received⟩ := replay_of_nested nested rfl
  have same : parts.map Prod.fst = variants := by
    have prepared : (parts.map Prod.fst).map (@Except.ok String Variant) = variants.map .ok :=
      List.map_map.trans coming.symm
    exact (List.map_inj_right (fun _ _ => Except.ok.inj)).mp prepared
  exact ⟨parts, last, later, nested, play, answers, same, received⟩

end Search
end ServingSweep
