import ServingSweep.Proofs.Sweep.Play
import ServingSweep.Search

/-!
A `Logged` source keeps a record of all that is done to it. A search over a logged server sweep is
the search over the bare one: by `after_logged_iff` both come to the same under the same calls.
-/

namespace ServingSweep
open Source

/-- A source with what was done to it, the last deed first. -/
structure Logged (σ α : Type) where
  source : σ
  past : List (Deed α) := []

namespace Logged
variable {σ α : Type} [FiniteSource σ α]

instance : FiniteSource (Logged σ α) α where
  pull l w :=
    let p := Source.pull l.source w
    ⟨p.result, ⟨p.source, .pulled p.result :: l.past⟩, p.world⟩
  feed l batch w :=
    let (source, w) := Source.feed l.source batch w
    (⟨source, .fed batch :: l.past⟩, w)
  started l := Source.started l.source
  done l := Source.done l.source
  ahead l := FiniteSource.ahead l.source
  ahead_pull_le l w := FiniteSource.ahead_pull_le l.source w
  ahead_pull_lt l w := FiniteSource.ahead_pull_lt l.source w
  ahead_feed_le l batch w := FiniteSource.ahead_feed_le l.source batch w

theorem past_pull {l : Logged σ α} {w : World} {result : Except Fault (Option α)}
    (same : (Source.pull l w).result = result) :
    (Source.pull l w).source.past = .pulled result :: l.past := by
  rw [← same]
  rfl

end Logged

namespace Search
variable {σ σ' τ : Type}

def withServer (s : Search σ τ) (server : σ') : Search σ' τ where
  model := s.model
  run := s.run
  server := server
  makeLoad := s.makeLoad
  opened := s.opened
  ended := s.ended
  current := s.current
  pending := s.pending
  turn := s.turn
  issued := s.issued

def logged (s : Search σ τ) : Search (Logged σ Variant) τ := s.withServer ⟨s.server, []⟩

def bare (l : Search (Logged σ Variant) τ) : Search σ τ := l.withServer l.server.source

section
variable [FiniteSource σ Variant] [Source τ Load]

def Step.bare : Step (Logged σ Variant) τ → Step σ τ
  | .finished p => .finished ⟨p.result, p.source.bare, p.world⟩
  | .onward l w => .onward l.bare w

omit [Source τ Load] in
theorem openNext_bare (l : Search (Logged σ Variant) τ) (w : World) :
    l.bare.openNext w = (l.openNext w).bare := by
  have same : Source.pull l.server w = ⟨(Source.pull l.server.source w).result,
      ⟨(Source.pull l.server.source w).source,
        .pulled (Source.pull l.server.source w).result :: l.server.past⟩,
      (Source.pull l.server.source w).world⟩ := rfl
  have server : l.bare.server = l.server.source := rfl
  unfold openNext
  rw [same, server]
  dsimp only
  cases (Source.pull l.server.source w).result with
  | error fault => rfl
  | ok given =>
    cases given with
    | none => rfl
    | some variant => rfl

theorem step_bare (l : Search (Logged σ Variant) τ) (w : World) :
    l.bare.step w = (l.step w).bare := by
  have current : l.bare.current = l.current := rfl
  unfold step
  rw [current]
  cases l.current with
  | none => exact openNext_bare l w
  | some under =>
    obtain ⟨variant, sweep⟩ := under
    dsimp only [stepIn]
    cases (Source.pull sweep w).result with
    | error fault => rfl
    | ok given =>
      cases given with
      | some load => rfl
      | none =>
        let p := Source.pull sweep w
        let closed := l.close variant p.source p.world
        exact openNext_bare closed.1 closed.2

theorem steps_bare (l : Search (Logged σ Variant) τ) (w : World) :
    l.bare.steps w = ⟨(l.steps w).result, (l.steps w).source.bare, (l.steps w).world⟩ := by
  -- Both searches have the same left of their server sweeps, on which their loops go down.
  generalize bound : FiniteSource.ahead l.server = n
  induction n using Nat.strongRecOn generalizing l w with
  | ind n ih =>
    have bare := step_bare l w
    cases found : l.step w with
    | finished p =>
      rw [found] at bare
      rw [steps_finished found, steps_finished bare]
    | onward next later =>
      rw [found] at bare
      have fewer := ahead_step found
      rw [steps_onward found, steps_onward bare]
      exact ih _ (by omega) next later rfl

theorem pull_bare (l : Search (Logged σ Variant) τ) (w : World) :
    Source.pull l.bare w = ⟨(Source.pull l w).result, (Source.pull l w).source.bare,
      (Source.pull l w).world⟩ :=
  steps_bare { l with turn := l.turn.pulled.start } (w.sayAll (l.turn.pullEvents l.model))

theorem feed_bare (l : Search (Logged σ Variant) τ) (batch : Batch) (w : World) :
    Source.feed l.bare batch w =
      ((Source.feed l batch w).1.bare, (Source.feed l batch w).2) := by
  change l.bare.feed batch w = ((l.feed batch w).1.bare, (l.feed batch w).2)
  have current : l.bare.current = l.current := rfl
  unfold feed
  dsimp only
  rw [current]
  cases l.current with
  | none => rfl
  | some under => rfl

/-- Under the same calls a search comes to the same with a record as without. -/
theorem after_logged_iff {l : Search (Logged σ Variant) τ} {past : List (Deed Probe)}
    {s : Search σ τ} :
    After l.bare past s ↔ ∃ l', After l past l' ∧ l'.bare = s := by
  constructor
  · intro reached
    induction reached with
    | start => exact ⟨l, .start, rfl⟩
    | @pull past s _ w ih =>
      obtain ⟨l', reached, rfl⟩ := ih
      have same := pull_bare l' w
      refine ⟨(Source.pull l' w).source, ?_, (congrArg Pulled.source same).symm⟩
      rw [congrArg Pulled.result same]
      exact reached.pull w
    | @feed past s _ batch w ih =>
      obtain ⟨l', reached, rfl⟩ := ih
      exact ⟨(Source.feed l' batch w).1, reached.feed batch w,
        (congrArg Prod.fst (feed_bare l' batch w)).symm⟩
  · rintro ⟨l', reached, rfl⟩
    induction reached with
    | start => exact .start
    | @pull past l' _ w ih =>
      have same := pull_bare l' w
      have further := ih.pull w
      rw [congrArg Pulled.result same, congrArg Pulled.source same] at further
      exact further
    | @feed past l' _ batch w ih =>
      have further := ih.feed batch w
      rw [congrArg Prod.fst (feed_bare l' batch w)] at further
      exact further

end

end Search
end ServingSweep
