import ServingSweep.Proofs.Search.Logged
import ServingSweep.Proofs.Search.Moves
import ServingSweep.Proofs.Sweep.Feedback

/-!
What a search hands over to its server sweep for a variant. A `Chronicle` lists what its driver
reported and what it did to its server sweep in one line; by `handed_over` a variant gets what was
reported while it was under load, after all that was reported while none was.
-/

namespace ServingSweep
open Source

deriving instance DecidableEq for Source.Deed

inductive Moment where
  | reported (batch : Batch)
  | server (deed : Deed Variant)

namespace Moment

/-- The variant under load: the one given out last, unless it was fed since. The last moment comes
first here and below. -/
def underLoad : List Moment → Option Variant
  | [] => none
  | .server (.pulled (.ok (some variant))) :: _ => some variant
  | .server (.fed _) :: _ => none
  | .server (.pulled _) :: past => underLoad past
  | .reported _ :: past => underLoad past

/-- What was reported since the server sweep was fed last. -/
def unclaimed : List Moment → Batch
  | [] => []
  | .server (.fed _) :: _ => []
  | .server (.pulled _) :: past => unclaimed past
  | .reported batch :: past => unclaimed past ++ batch

/-- What of it was reported while a variant was under load. -/
def own : List Moment → Batch
  | [] => []
  | .server (.fed _) :: _ => []
  | .server (.pulled _) :: past => own past
  | .reported batch :: past => if (underLoad past).isSome then own past ++ batch else own past

/-- What of it was reported while none was. -/
def strays : List Moment → Batch
  | [] => []
  | .server (.fed _) :: _ => []
  | .server (.pulled _) :: past => strays past
  | .reported batch :: past => if (underLoad past).isSome then strays past else strays past ++ batch

/-- Variants are given out one at a time, and each is fed what is unclaimed by then. -/
def Orderly : List Moment → Prop
  | [] => True
  | .server (.fed batch) :: past =>
    (underLoad past).isSome = true ∧ batch = unclaimed past ∧ Orderly past
  | .server (.pulled _) :: past => underLoad past = none ∧ Orderly past
  | .reported _ :: past => Orderly past

theorem own_of_idle {past : List Moment} (orderly : Orderly past)
    (idle : underLoad past = none) : own past = [] := by
  induction past with
  | nil => rfl
  | cons moment past ih =>
    match moment with
    | .reported batch =>
      change underLoad past = none at idle
      simp only [own, idle, Option.isSome_none, Bool.false_eq_true, if_false]
      exact ih orderly idle
    | .server (.fed batch) => rfl
    | .server (.pulled result) => exact ih orderly.2 orderly.1

theorem unclaimed_eq {past : List Moment} (orderly : Orderly past) :
    unclaimed past = strays past ++ own past := by
  induction past with
  | nil => rfl
  | cons moment past ih =>
    match moment with
    | .reported batch =>
      simp only [unclaimed, strays, own, ih orderly]
      cases idle : underLoad past with
      | none =>
        have nothing : own past = [] := own_of_idle orderly idle
        simp [nothing]
      | some variant => simp
    | .server (.fed batch) => rfl
    | .server (.pulled result) => exact ih orderly.2

theorem orderly_append {later before : List Moment} (orderly : Orderly (later ++ before)) :
    Orderly before := by
  induction later with
  | nil => exact orderly
  | cons moment later ih =>
    match moment with
    | .reported batch => exact ih orderly
    | .server (.fed batch) => exact ih orderly.2.2
    | .server (.pulled result) => exact ih orderly.2

end Moment

namespace Search
open Relation
variable {σ τ : Type} [FiniteSource σ Variant] [Source τ Load]

/-- The moments of a search under calls: what is reported, and what a pull adds to the record of the
server sweep. -/
inductive Chronicle (start : Search (Logged σ Variant) τ) :
    List Moment → Search (Logged σ Variant) τ → Prop where
  | start : Chronicle start [] start
  | pull {moments : List Moment} {l : Search (Logged σ Variant) τ}
      (before : Chronicle start moments l) (w : World) {deeds : List (Deed Variant)}
      (added : (Source.pull l w).source.server.past = deeds ++ l.server.past) :
      Chronicle start (deeds.map .server ++ moments) (Source.pull l w).source
  | feed {moments : List Moment} {l : Search (Logged σ Variant) τ}
      (before : Chronicle start moments l) (batch : Batch) (w : World) :
      Chronicle start (.reported batch :: moments) (Source.feed l batch w).1

structure Recounts (moments : List Moment) (l : Search (Logged σ Variant) τ) : Prop where
  current : l.current.map Prod.fst = Moment.underLoad moments
  gathered : l.gathered = Moment.unclaimed moments
  orderly : Moment.Orderly moments

variable {l l' : Search (Logged σ Variant) τ} {moments : List Moment}

theorem recounts_move (recounts : Recounts moments l) (move : Move l l') :
    ∃ deed, l'.server.past = deed :: l.server.past ∧
      Recounts (.server deed :: moments) l' := by
  cases move with
  | closes later current ended =>
    refine ⟨.fed l.gathered, rfl, rfl, rfl, ?_, recounts.gathered, recounts.orderly⟩
    rw [← recounts.current, current]
    rfl
  | @opens variant w idle given =>
    refine ⟨.pulled (.ok (some variant)), Logged.past_pull given, rfl,
      recounts.gathered, ?_, recounts.orderly⟩
    rw [← recounts.current, idle]
    rfl

theorem recounts_ends {result : Except Fault (Option Probe)} (recounts : Recounts moments l)
    (ends : Ends l result l') :
    ∃ deeds, l'.server.past = deeds ++ l.server.past ∧
      Recounts (deeds.map .server ++ moments) l' := by
  have under := recounts.current
  cases ends with
  | gives current given =>
    rw [current] at under
    exact ⟨[], rfl, under, recounts.gathered, recounts.orderly⟩
  | loadFails current failed =>
    rw [current] at under
    exact ⟨[], rfl, under, recounts.gathered, recounts.orderly⟩
  | @serverFails w fault idle failed =>
    rw [idle] at under
    exact ⟨[.pulled (.error fault)], Logged.past_pull failed, recounts.current,
      recounts.gathered, under.symm, recounts.orderly⟩
  | @serverEnds w idle ended =>
    rw [idle] at under
    exact ⟨[.pulled (.ok none)], Logged.past_pull ended, recounts.current,
      recounts.gathered, under.symm, recounts.orderly⟩

/-- A pull adds to the record of the server sweep, and what it adds is orderly. -/
theorem recounts_pull (recounts : Recounts moments l) (w : World) :
    ∃ deeds, (Source.pull l w).source.server.past = deeds ++ l.server.past ∧
      Recounts (deeds.map .server ++ moments) (Source.pull l w).source := by
  obtain ⟨mid, moves, ends⟩ := pull_moves l w
  have before : ∃ deeds, mid.server.past = deeds ++ l.server.past ∧
      Recounts (deeds.map .server ++ moments) mid := by
    clear ends
    induction moves with
    | refl => exact ⟨[], rfl, recounts.current, recounts.gathered, recounts.orderly⟩
    | tail _ move ih =>
      obtain ⟨deeds, added, recounts⟩ := ih
      obtain ⟨deed, further, recounts⟩ := recounts_move recounts move
      exact ⟨deed :: deeds, by rw [further, added]; rfl, recounts⟩
  obtain ⟨deeds, added, recounts⟩ := before
  obtain ⟨last, further, recounts⟩ := recounts_ends recounts ends
  refine ⟨last ++ deeds, by rw [further, added, List.append_assoc], ?_⟩
  rw [List.map_append, List.append_assoc]
  exact recounts

theorem recounts_feed (recounts : Recounts moments l) (batch : Batch) (w : World) :
    Recounts (.reported batch :: moments) (Source.feed l batch w).1 := by
  change Recounts _ (l.feed batch w).1
  have gathered : Journal.toList (l.pending.append batch) = Moment.unclaimed moments ++ batch := by
    rw [Journal.toList_append]
    exact congrArg (· ++ batch) recounts.gathered
  have under := recounts.current
  rcases feed_cases l batch w with ⟨idle, same⟩ | ⟨variant, sweep, later, current, same⟩
  · rw [same]
    exact ⟨under, gathered, recounts.orderly⟩
  · rw [current] at under
    rw [same]
    exact ⟨under, gathered, recounts.orderly⟩

theorem recounts_of_chronicle {start : Search (Logged σ Variant) τ}
    (initial : Recounts [] start) (chronicle : Chronicle start moments l) :
    Recounts moments l := by
  induction chronicle with
  | start => exact initial
  | pull _ w added ih =>
    obtain ⟨deeds, same, recounts⟩ := recounts_pull ih w
    rw [added] at same
    rw [List.append_cancel_right same]
    exact recounts
  | feed _ batch w ih => exact recounts_feed ih batch w

theorem exists_chronicle {start : Search (Logged σ Variant) τ} (initial : Recounts [] start)
    {past : List (Deed Probe)} (reached : After start past l) :
    ∃ moments, Chronicle start moments l := by
  induction reached with
  | start => exact ⟨[], .start⟩
  | pull _ w ih =>
    obtain ⟨moments, chronicle⟩ := ih
    obtain ⟨deeds, added, -⟩ := recounts_pull (recounts_of_chronicle initial chronicle) w
    exact ⟨_, chronicle.pull w added⟩
  | feed _ batch w ih =>
    obtain ⟨moments, chronicle⟩ := ih
    exact ⟨_, chronicle.feed batch w⟩

omit [FiniteSource σ Variant] [Source τ Load] in
theorem recounts_fresh (server : σ) (makeLoad : List Variant → Variant → τ) (model : String)
    (run : Uuid) :
    Recounts [] ({ model := model, run := run, server := server, makeLoad := makeLoad } :
      Search σ τ).logged :=
  ⟨rfl, rfl, trivial⟩

/-- A server sweep is fed once for each variant, when its load sweep has ended: what was reported
while the variant was under load, after what had been reported before it, when none was. -/
theorem handed_over (server : σ) (makeLoad : List Variant → Variant → τ) (model : String)
    (run : Uuid) :
    let start : Search σ τ :=
      { model := model, run := run, server := server, makeLoad := makeLoad }
    (∀ past s, After start past s → ∃ moments l, Chronicle start.logged moments l ∧ l.bare = s) ∧
    ∀ moments l, Chronicle start.logged moments l →
      l.current.map Prod.fst = Moment.underLoad moments ∧
      ∀ later batch before, moments = later ++ .server (.fed batch) :: before →
        (∃ variant, Moment.underLoad before = some variant) ∧
        batch = Moment.strays before ++ Moment.own before ∧
        (batch = Moment.own before ↔ Moment.strays before = []) := by
  intro start
  have initial := recounts_fresh server makeLoad model run
  constructor
  · intro past s reached
    obtain ⟨l, logged, bare⟩ := (after_logged_iff (l := start.logged)).mp reached
    obtain ⟨moments, chronicle⟩ := exists_chronicle initial logged
    exact ⟨moments, l, chronicle, bare⟩
  intro moments l chronicle
  have recounts := recounts_of_chronicle initial chronicle
  refine ⟨recounts.current, ?_⟩
  rintro later batch before rfl
  obtain ⟨under, same, orderly⟩ := Moment.orderly_append recounts.orderly
  have parts := same.trans (Moment.unclaimed_eq orderly)
  refine ⟨Option.isSome_iff_exists.mp under, parts, ?_⟩
  rw [parts, List.append_left_eq_self]

/-! ### Results before the first pull -/

def threeRungs : Resources where
  plan := { earlyExit := true, instances := ⟨1, 1⟩, batchSize := ⟨1, 4⟩ }
  repository := Repository.ofConfigs [("m", [])]

def oneLoad : Model := { name := "m", pins := { concurrencies := [1] } }

def rungSearch : ModelSearch := (Search.ofPlan threeRungs oneLoad false ⟨0⟩ {}).1

def rung (n : Nat) (batchSize : UInt32) : Variant :=
  Variant.build (Names.numbered "m" n) oneLoad (Ladder.overrides false 1 batchSize) []

def slow : Batch := [some ⟨[("perf_throughput", ⟨0x3ff0000000000000⟩)]⟩]

def fast : Batch := [some ⟨[("perf_throughput", ⟨0x4000000000000000⟩)]⟩]

/-- The search fed before its first pull, and then driven to its second variant. -/
def strayFedSearch : Search (Logged ServerSweep Variant) LoadSweep :=
  let first := (rungSearch.logged.feed strayBatch {}).1.pull {}
  ((first.source.feed slow {}).1.pull first.world).source

theorem chronicle_strayFedSearch :
    Chronicle rungSearch.logged
      [.server (.pulled (.ok (some (rung 1 2)))), .server (.fed (strayBatch ++ slow)),
        .reported slow, .server (.pulled (.ok (some (rung 0 1)))), .reported strayBatch]
      strayFedSearch := by
  let l := (rungSearch.logged.feed strayBatch {}).1
  have opened : (Source.pull l {}).source.server.past =
      [.pulled (.ok (some (rung 0 1)))] ++ l.server.past := by decide +kernel
  let l₁ := ((Source.pull l {}).source.feed slow {}).1
  let named := (Source.pull l {}).world
  have handed : (Source.pull l₁ named).source.server.past =
      [.pulled (.ok (some (rung 1 2))), .fed (strayBatch ++ slow)] ++ l₁.server.past := by
    decide +kernel
  exact (((Chronicle.start.feed strayBatch {}).pull {} opened).feed slow {}).pull named handed

theorem handed_over_strayFedSearch :
    Chronicle rungSearch.logged
      [.server (.pulled (.ok (some (rung 1 2)))), .server (.fed (strayBatch ++ slow)),
        .reported slow, .server (.pulled (.ok (some (rung 0 1)))), .reported strayBatch]
      strayFedSearch ∧
    strayFedSearch.current.map Prod.fst = some (rung 1 2) ∧
    let before : List Moment :=
      [.reported slow, .server (.pulled (.ok (some (rung 0 1)))), .reported strayBatch]
    Moment.strays before = strayBatch ∧ Moment.own before = slow ∧
    (strayBatch ++ slow = Moment.own before ↔ Moment.strays before = []) := by
  obtain ⟨current, handed⟩ :=
    (handed_over rungSearch.server rungSearch.makeLoad "m" ⟨0⟩).2 _ _ chronicle_strayFedSearch
  exact ⟨chronicle_strayFedSearch, current, rfl, rfl,
    (handed [.server (.pulled (.ok (some (rung 1 2))))] _ _ rfl).2.2⟩

def thirdPull (s : ModelSearch) : Pulled ModelSearch Probe :=
  let first := s.pull {}
  let second := (first.source.feed slow {}).1.pull first.world
  (second.source.feed fast {}).1.pull second.world

/-- What was reported before the first pull is handed over for the first variant, and it ends a row
that goes on without it. -/
theorem not_always_own :
    (¬ ∀ moments l, Chronicle rungSearch.logged moments l →
      ∀ later batch before, moments = later ++ .server (.fed batch) :: before →
        batch = Moment.own before) ∧
    (thirdPull rungSearch).result ≠ .ok none ∧
    (thirdPull (rungSearch.feed strayBatch {}).1).result = .ok none := by
  refine ⟨?_, by decide +kernel, by decide +kernel⟩
  intro always
  have same := always _ _ chronicle_strayFedSearch [.server (.pulled (.ok (some (rung 1 2))))] _ _
    rfl
  exact absurd same (by decide +kernel)

end Search
end ServingSweep
