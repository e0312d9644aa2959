import Mathlib.Algebra.GroupWithZero.Nat
import Mathlib.Algebra.Order.BigOperators.Group.List
import Mathlib.Algebra.Order.Group.Nat
import ServingSweep.Control.Script
import ServingSweep.Proofs.Search.Logged
import ServingSweep.Proofs.Search.Moves
import ServingSweep.Proofs.Search.NestedWalk
import ServingSweep.Proofs.Sweep.Turns

/-!
How a search conducts its sweeps when its driver does not keep to the turns. The server sweep is
always fed in turn, once for each variant (`polite`, `balanced`), and what the driver does out of
turn is counted in the load sweeps and in the search alike (`tallied`).
-/

namespace ServingSweep
namespace Search
open Source
variable {σ τ : Type}

def sweeps (s : Search σ τ) : List τ :=
  s.ended.toList.map Prod.snd ++ s.current.toList.map Prod.snd

section Numbers
variable [FiniteSource σ Variant] [Source τ Load]

/-- The probes given out have the numbers from 0 on, in order. -/
def Counted (past : List (Deed Probe)) (s : Search σ τ) : Prop :=
  (Deed.given past).map Probe.number = List.range s.issued

theorem counted : Invariant (σ := σ) (τ := τ) Counted Counted where
  begins counted := counted
  moves counted move := by cases move <;> exact counted
  ends counted ends := by
    cases ends with
    | gives current given =>
      simp only [Counted, Deed.given, List.map_append, List.range_succ]
      exact congrArg (· ++ _) counted
    | loadFails current failed => exact counted
    | serverFails idle failed => exact counted
    | serverEnds idle ended => exact counted
  feeds {_ s} batch w counted := by
    obtain ⟨_, same⟩ := feed_eq s batch w
    rw [same]
    exact counted

end Numbers

/-! ### The record of the server sweep -/

section Record
variable [FiniteSource σ Variant] [Source τ Load]

def Recorded (server : σ) (l : Search (Logged σ Variant) τ) : Prop :=
  After server l.server.past l.server.source

theorem recorded (server : σ) : Invariant (σ := Logged σ Variant) (τ := τ)
    (fun _ => Recorded server) (fun _ => Recorded server) where
  begins recorded := recorded
  moves {_ l _} recorded move := by
    cases move with
    | closes later current ended => exact recorded.feed l.gathered _
    | opens idle given => exact recorded.pull _
  ends {_ l _ _} recorded ends := by
    cases ends with
    | gives current given => exact recorded
    | loadFails current failed => exact recorded
    | serverFails idle failed => exact recorded.pull _
    | serverEnds idle ended => exact recorded.pull _
  feeds {_ l} batch w recorded := by
    obtain ⟨_, same⟩ := feed_eq l batch w
    rw [same]
    exact recorded

/-- The server sweep gave out the variants that were opened, and was fed once for each of them but
the one under load. -/
structure Balanced (l : Search (Logged σ Variant) τ) : Prop where
  given : Deed.given l.server.past = l.opened.reverse
  feeds : Deed.feeds l.server.past = l.ended.length
  sweeps : l.ended.length + l.current.toList.length = l.opened.length

omit [FiniteSource σ Variant] [Source τ Load] in
theorem balanced_of_same {l l' : Search (Logged σ Variant) τ} (balanced : Balanced l)
    (record : l'.server.past = l.server.past) (opened : l'.opened = l.opened)
    (ended : l'.ended = l.ended)
    (current : l'.current.toList.length = l.current.toList.length) : Balanced l' :=
  ⟨by rw [record, opened]; exact balanced.given, by rw [record, ended]; exact balanced.feeds,
    by rw [ended, current, opened]; exact balanced.sweeps⟩

omit [Source τ Load] in
theorem balanced_rested {l : Search (Logged σ Variant) τ} (balanced : Balanced l) {w : World}
    (nothing : ∀ v, (Source.pull l.server w).result ≠ .ok (some v)) :
    Balanced { l with server := (Source.pull l.server w).source } := by
  have record := Logged.past_pull (l := l.server) (w := w) rfl
  refine ⟨?_, ?_, balanced.sweeps⟩
  · change Deed.given (Source.pull l.server w).source.past = _
    rw [record, Deed.given_rested nothing]
    exact balanced.given
  · change Deed.feeds (Source.pull l.server w).source.past = _
    rw [record]
    exact balanced.feeds

theorem balanced : Invariant (σ := Logged σ Variant) (τ := τ)
    (fun _ => Balanced) (fun _ => Balanced) where
  begins balanced := balanced_of_same balanced rfl rfl rfl rfl
  moves {_ l _} balanced move := by
    have sum := balanced.sweeps
    cases move with
    | closes later current ended =>
      rw [current] at sum
      refine ⟨balanced.given, ?_, sum⟩
      change Deed.feeds l.server.past + 1 = _
      rw [balanced.feeds]
      rfl
    | @opens variant w idle given =>
      have record := Logged.past_pull given
      rw [idle] at sum
      refine ⟨?_, ?_, congrArg (· + 1) sum⟩
      · change Deed.given (Source.pull l.server w).source.past = (variant :: l.opened).reverse
        rw [record, Deed.given, balanced.given, List.reverse_cons]
      · change Deed.feeds (Source.pull l.server w).source.past = _
        rw [record]
        exact balanced.feeds
  ends {_ l _ _} balanced ends := by
    cases ends with
    | gives current given => exact balanced_of_same balanced rfl rfl rfl (by rw [current]; rfl)
    | loadFails current failed =>
      exact balanced_of_same balanced rfl rfl rfl (by rw [current]; rfl)
    | serverFails idle failed => exact balanced_rested balanced (by simp [failed])
    | serverEnds idle ended => exact balanced_rested balanced (by simp [ended])
  feeds {_ l} batch w balanced := by
    rcases feed_cases l batch w with ⟨-, same⟩ | ⟨_, _, _, current, same⟩
    · rw [same]
      exact balanced_of_same balanced rfl rfl rfl rfl
    · rw [same]
      exact balanced_of_same balanced rfl rfl rfl (by rw [current]; rfl)

end Record

/-! ### The turn of the server sweep -/

section Politeness
variable [FiniteSource σ Variant] [Source τ Load]

/-- No call to the server sweep was out of turn, and the next one will not be: it waits for results
just while a variant is under load. -/
structure Polite (turn : σ → Turn) (s : Search σ τ) : Prop where
  violations : (turn s.server).violations = 0
  waiting : s.current.isSome = true →
    (turn s.server).outstanding = true ∧ (turn s.server).fed = false
  reported : s.current = none → (turn s.server).unreported = false

omit [FiniteSource σ Variant] [Source τ Load] in
theorem polite_of_current {turn : σ → Turn} {s : Search σ τ} {under : Variant × τ}
    (current : s.current = some under) (violations : (turn s.server).violations = 0)
    (waiting : (turn s.server).outstanding = true ∧ (turn s.server).fed = false) :
    Polite turn s := by
  refine ⟨violations, fun _ => waiting, ?_⟩
  intro idle
  rw [current] at idle
  cases idle

omit [FiniteSource σ Variant] [Source τ Load] in
theorem polite_of_idle {turn : σ → Turn} {s : Search σ τ} (idle : s.current = none)
    (violations : (turn s.server).violations = 0)
    (reported : (turn s.server).unreported = false) : Polite turn s := by
  refine ⟨violations, ?_, fun _ => reported⟩
  intro under
  rw [idle] at under
  cases under

omit [Source τ Load] in
/-- A pull of the server sweep that gives out no variant leaves it with nothing to wait for. -/
theorem polite_rested {turn : σ → Turn} (takesTurns : TakesTurns turn) {s : Search σ τ}
    (polite : Polite turn s) (idle : s.current = none) {w : World}
    (nothing : ∀ v, (Source.pull s.server w).result ≠ .ok (some v)) :
    Polite turn { s with server := (Source.pull s.server w).source } := by
  obtain ⟨started, rested⟩ := takesTurns.rested nothing
  have counted := Turn.violations_pulled (polite.reported idle)
  refine polite_of_idle idle ?_ ?_
  · change (turn (Source.pull s.server w).source).violations = 0
    rw [rested]
    exact counted.trans polite.violations
  · change (turn (Source.pull s.server w).source).unreported = false
    rw [rested]
    exact Turn.unreported_of_settled rfl

theorem polite {turn : σ → Turn} (takesTurns : TakesTurns turn) :
    Invariant (σ := σ) (τ := τ) (fun _ => Polite turn) (fun _ => Polite turn) where
  begins polite := ⟨polite.violations, polite.waiting, polite.reported⟩
  moves {_ s _} polite move := by
    cases move with
    | closes later current ended =>
      obtain ⟨outstanding, unfed⟩ := polite.waiting (by rw [current]; rfl)
      have expected : (turn s.server).unexpected = false := by
        simp [Turn.unexpected, outstanding, unfed]
      refine polite_of_idle rfl ?_ ?_
      · change (turn (Source.feed s.server s.gathered _).1).violations = 0
        rw [takesTurns.fed, Turn.violations_accepted expected]
        exact polite.violations
      · change (turn (Source.feed s.server s.gathered _).1).unreported = false
        rw [takesTurns.fed]
        simp [Turn.unreported, Turn.accepted]
    | @opens variant w idle given =>
      have gave := takesTurns.gave given
      have counted := Turn.violations_pulled (polite.reported idle)
      refine polite_of_current rfl ?_ ?_
      · change (turn (Source.pull s.server w).source).violations = 0
        rw [gave]
        exact counted.trans polite.violations
      · change (turn (Source.pull s.server w).source).outstanding = true ∧
          (turn (Source.pull s.server w).source).fed = false
        rw [gave]
        exact ⟨rfl, rfl⟩
  ends {_ s _ _} polite ends := by
    cases ends with
    | gives current given =>
      exact polite_of_current rfl polite.violations (polite.waiting (by rw [current]; rfl))
    | loadFails current failed =>
      exact polite_of_current rfl polite.violations (polite.waiting (by rw [current]; rfl))
    | serverFails idle failed => exact polite_rested takesTurns polite idle (by simp [failed])
    | serverEnds idle ended => exact polite_rested takesTurns polite idle (by simp [ended])
  feeds {_ s} batch w polite := by
    rcases feed_cases s batch w with ⟨-, same⟩ | ⟨_, _, _, current, same⟩
    · rw [same]
      exact ⟨polite.violations, polite.waiting, polite.reported⟩
    · rw [same]
      exact polite_of_current rfl polite.violations (polite.waiting (by rw [current]; rfl))

end Politeness

/-! ### The turn of the search -/

section Turns
variable [FiniteSource σ Variant] [Source τ Load]

theorem turn_of_moves {s mid : Search σ τ} (moves : Relation.ReflTransGen Move s mid) :
    mid.turn = s.turn := by
  induction moves with
  | refl => rfl
  | tail _ move ih => cases move <;> exact ih

theorem takesTurns : TakesTurns (fun s : Search σ τ => s.turn) := by
  refine ⟨?_, ?_, ?_⟩
  · intro s w probe given
    obtain ⟨mid, moves, ends⟩ := pull_moves s w
    have turn := turn_of_moves moves
    rw [given] at ends
    generalize (Source.pull s w).source = last at ends ⊢
    cases ends with
    | gives current given =>
      change mid.turn.yielded = _
      rw [turn]
      rfl
  · intro s w nothing
    obtain ⟨mid, moves, ends⟩ := pull_moves s w
    have turn := turn_of_moves moves
    refine ⟨true, ?_⟩
    revert ends nothing
    generalize (Source.pull s w).result = result
    generalize (Source.pull s w).source = last
    intro nothing ends
    cases ends with
    | gives current given => exact absurd rfl (nothing _)
    | loadFails current failed => exact turn
    | serverFails idle failed => exact turn
    | serverEnds idle ended => exact turn
  · intro s batch w
    change (s.feed batch w).1.turn = _
    obtain ⟨_, same⟩ := feed_eq s batch w
    rw [same]

end Turns

/-! ### The turns of the load sweeps -/

section Violations
variable [FiniteSource σ Variant]

def endedViolations (s : Search σ LoadSweep) : Nat :=
  (s.ended.toList.map (fun e => e.2.turn.violations)).sum

/-- Between calls the search waits for results just while a load of the variant under load is
outstanding; it has counted what the load sweeps have counted and what was fed besides. -/
structure Tallied (past : List (Deed Probe)) (s : Search σ LoadSweep) : Prop where
  fresh : ∀ opened variant, (s.makeLoad opened variant).turn = {}
  outstanding : s.turn.outstanding = s.current.isSome
  given : s.current.isSome = Deed.outstanding past
  load : ∀ variant sweep, s.current = some (variant, sweep) →
    sweep.turn.outstanding = true ∧ sweep.turn.fed = s.turn.fed
  violations : s.turn.violations = endedViolations s +
    (s.current.elim 0 (fun under => under.2.turn.violations)) + Deed.strays past

/-- Within a pull the search is ahead of its load sweep, which is still to be pulled. -/
structure Tallying (past : List (Deed Probe)) (s : Search σ LoadSweep) : Prop where
  fresh : ∀ opened variant, (s.makeLoad opened variant).turn = {}
  settled : s.turn.outstanding = false
  violations : s.turn.violations = endedViolations s +
    (s.current.elim 0 (fun under => under.2.turn.pulled.violations)) + Deed.strays past

omit [FiniteSource σ Variant] in
theorem tallying_pulled {past : List (Deed Probe)} {s : Search σ LoadSweep}
    (tallied : Tallied past s) : Tallying past { s with turn := s.turn.pulled.start } := by
  refine ⟨tallied.fresh, rfl, ?_⟩
  change s.turn.pulled.violations = endedViolations s +
    (s.current.elim 0 (fun under => under.2.turn.pulled.violations)) + Deed.strays past
  have violations := tallied.violations
  have waiting := tallied.outstanding
  cases current : s.current with
  | none =>
    rw [current] at waiting violations
    rw [Turn.violations_pulled (Turn.unreported_of_settled waiting)]
    exact violations
  | some under =>
    obtain ⟨variant, sweep⟩ := under
    obtain ⟨outstanding, fed⟩ := tallied.load variant sweep current
    rw [current] at waiting violations
    -- Both wait for the same results, so a pull without them counts in both or in neither.
    have same : sweep.turn.unreported = s.turn.unreported := by
      simp [Turn.unreported, outstanding, fed, waiting]
    simp only [Option.elim_some, Turn.pulled, same] at violations ⊢
    split
    · omega
    · exact violations

omit [FiniteSource σ Variant] in
/-- Results out of turn are counted where they belong: by the load sweep, or as a stray. -/
theorem tallied_fed {past : List (Deed Probe)} {s : Search σ LoadSweep} (tallied : Tallied past s)
    (batch : Batch) (w : World) : Tallied (.fed batch :: past) (s.feed batch w).1 := by
  have violations := tallied.violations
  have waiting := tallied.outstanding
  have given := tallied.given
  rcases feed_cases s batch w with ⟨idle, same⟩ | ⟨variant, sweep, later, current, same⟩
  · rw [idle] at waiting violations given
    rw [same]
    refine ⟨tallied.fresh, tallied.outstanding, tallied.given, ?_, ?_⟩
    · intro variant sweep current
      change s.current = _ at current
      rw [idle] at current
      cases current
    · change s.turn.accepted.violations =
        endedViolations s + s.current.elim 0 _ + (Deed.strays past + _)
      have stray : s.turn.unexpected = true := by simp [Turn.unexpected, waiting]
      have none : Deed.outstanding past = false := given.symm
      simp only [Turn.accepted, stray, if_true, idle, Option.elim_none, none,
        Bool.false_eq_true, if_false] at violations ⊢
      omega
  · obtain ⟨outstanding, fed⟩ := tallied.load variant sweep current
    rw [current] at waiting violations given
    rw [same]
    refine ⟨tallied.fresh, waiting, given, ?_, ?_⟩
    · intro variant' sweep' current'
      cases current'
      exact ⟨outstanding, rfl⟩
    · change s.turn.accepted.violations =
        endedViolations s + sweep.turn.accepted.violations + (Deed.strays past + _)
      have due : Deed.outstanding past = true := given.symm
      have same : sweep.turn.unexpected = s.turn.unexpected := by
        simp [Turn.unexpected, outstanding, fed, waiting]
      simp only [Turn.accepted, same, Option.elim_some, due, if_true, Nat.add_zero]
        at violations ⊢
      split
      · omega
      · exact violations

omit [FiniteSource σ Variant] in
theorem tallied_idle {past : List (Deed Probe)} {s : Search σ LoadSweep}
    (tallying : Tallying past s) (idle : s.current = none) {server : σ}
    {result : Except Fault (Option Probe)}
    (nothing : Deed.outstanding (.pulled result :: past) = false) :
    Tallied (.pulled result :: past) { s with server := server } := by
  refine ⟨tallying.fresh, ?_, ?_, ?_, ?_⟩
  · change s.turn.outstanding = s.current.isSome
    rw [idle]
    exact tallying.settled
  · change s.current.isSome = _
    rw [idle, nothing]
    rfl
  · intro variant sweep current
    change s.current = _ at current
    rw [idle] at current
    cases current
  · have violations := tallying.violations
    rw [idle] at violations
    change s.turn.violations = endedViolations s + s.current.elim 0 _ + Deed.strays past
    rw [idle]
    exact violations

theorem tallied : Invariant (σ := σ) (τ := LoadSweep) Tallied Tallying where
  begins tallied := tallying_pulled tallied
  moves {past s _} tallying move := by
    have violations := tallying.violations
    cases move with
    | @closes variant sweep w later current ended =>
      refine ⟨tallying.fresh, tallying.settled, ?_⟩
      obtain ⟨started, rested⟩ := Course.takesTurns.rested (s := sweep) (w := w)
        (by rw [ended]; exact fun _ h => nomatch h)
      have left : (Source.pull sweep w).source.turn.violations = sweep.turn.pulled.violations := by
        rw [rested]
      have sum : endedViolations (s.close variant (Source.pull sweep w).source later).1 =
          endedViolations s + sweep.turn.pulled.violations := by
        simp [endedViolations, close, left]
      rw [current] at violations
      rw [sum]
      exact violations
    | @opens variant w idle given =>
      refine ⟨tallying.fresh, tallying.settled, ?_⟩
      have first : (s.makeLoad s.opened variant).turn.pulled.violations = 0 := by
        rw [tallying.fresh]
        rfl
      rw [idle] at violations
      change s.turn.violations = endedViolations s + _ + _
      rw [Option.elim_some, first]
      exact violations
  ends {past s _ _} tallying ends := by
    have violations := tallying.violations
    have settled := tallying.settled
    cases ends with
    | @gives variant sweep w load current given =>
      have gave := Course.takesTurns.gave given
      rw [current] at violations
      refine ⟨tallying.fresh, rfl, rfl, ?_, ?_⟩
      · intro variant' sweep' current'
        cases current'
        rw [gave]
        exact ⟨rfl, rfl⟩
      · change s.turn.violations = endedViolations s +
          (Source.pull sweep w).source.turn.violations + Deed.strays past
        rw [gave]
        exact violations
    | @loadFails variant sweep w fault current failed =>
      exact absurd failed (Course.neverFails sweep [] sweep w fault .start)
    | serverFails idle failed => exact tallied_idle tallying idle rfl
    | serverEnds idle ended => exact tallied_idle tallying idle rfl
  feeds batch w tallied := tallied_fed tallied batch w

omit [FiniteSource σ Variant] in
theorem sum_sweeps (s : Search σ LoadSweep) :
    (s.sweeps.map (fun sweep => sweep.turn.violations)).sum = endedViolations s +
      s.current.elim 0 (fun under => under.2.turn.violations) := by
  unfold sweeps endedViolations
  rw [List.map_append, List.sum_append, List.map_map]
  cases s.current with
  | none => rfl
  | some under => rfl

end Violations

/-- A search of a plan that is called in turn calls all its sweeps in turn. -/
theorem violations_of_ofPlan {r : Resources} {m : Model} {baselineOnly : Bool} {run : Uuid}
    {w : World} {past : List (Deed Probe)} {s : ModelSearch}
    (reached : After (Search.ofPlan r m baselineOnly run w).1 past s)
    (inTurn : s.turn.violations = 0) :
    s.server.course.turn.violations = 0 ∧ ∀ sweep ∈ s.sweeps, sweep.turn.violations = 0 := by
  let start := (Search.ofPlan r m baselineOnly run w).1
  have politeStart : Polite (fun server : ServerSweep => server.course.turn) start :=
    polite_of_idle rfl rfl rfl
  have talliedStart : Tallied [] start := by
    refine ⟨fun _ _ => rfl, rfl, rfl, ?_, rfl⟩
    intro variant sweep under
    cases under
  refine ⟨((polite ServerSweep.takesTurns).holds politeStart reached).violations, ?_⟩
  intro sweep member
  have sum := (tallied.holds talliedStart reached).violations
  have most : sweep.turn.violations ≤
      (s.sweeps.map (fun sweep => sweep.turn.violations)).sum :=
    List.le_sum_of_mem (List.mem_map_of_mem member)
  rw [sum_sweeps] at most
  omega

/-- Whatever its driver does, a search of a plan calls its server sweep in turn: it feeds it once
for each variant given out, save the one under load. The probes are numbered from 0 on, and what
the driver did out of turn is what the load sweeps have counted, and the results fed while no
variant was under load. -/
theorem server_kept_in_turn (r : Resources) (m : Model) (baselineOnly : Bool) (run : Uuid)
    (w : World) :
    let start := (Search.ofPlan r m baselineOnly run w).1
    (∀ past s, After start past s ↔ ∃ l, After start.logged past l ∧ l.bare = s) ∧
    ∀ past l, After start.logged past l →
      After start.server l.server.past l.server.source ∧
      l.server.source.course.turn.violations = 0 ∧
      Deed.feeds l.server.past + (if l.current.isSome then 1 else 0) =
        (Deed.given l.server.past).length ∧
      (Deed.given past).map Probe.number = List.range l.issued ∧
      l.current.isSome = Deed.outstanding past ∧
      l.sweeps.length = (Deed.given l.server.past).length ∧
      l.turn.violations =
        (l.sweeps.map (fun sweep => sweep.turn.violations)).sum + Deed.strays past := by
  intro start
  refine ⟨fun past s => after_logged_iff (l := start.logged), ?_⟩
  intro past l reached
  have bare : After start past l.bare := after_logged_iff.mpr ⟨l, reached, rfl⟩
  have countedStart : Counted [] start := rfl
  have politeStart : Polite (fun server : ServerSweep => server.course.turn) start :=
    ⟨rfl, (fun impossible => nomatch impossible), fun _ => rfl⟩
  have talliedStart : Tallied [] start :=
    ⟨fun _ _ => rfl, rfl, rfl, (fun _ _ impossible => nomatch impossible), rfl⟩
  have balancedStart : Balanced start.logged := ⟨rfl, rfl, rfl⟩
  have numbers := counted.holds countedStart bare
  have turn := (polite ServerSweep.takesTurns).holds politeStart bare
  have violations := tallied.holds talliedStart bare
  have record := balanced.holds balancedStart reached
  have recordedStart : Recorded start.server start.logged := .start
  have history : After start.server l.server.past l.server.source :=
    (recorded start.server).holds recordedStart reached
  have given : (Deed.given l.server.past).length = l.opened.length := by
    rw [record.given, List.length_reverse]
  have sweeps : l.sweeps.length = l.opened.length := by
    rw [← record.sweeps]
    simp [Search.sweeps]
  refine ⟨history, turn.violations, ?_, numbers, violations.given, sweeps.trans given.symm, ?_⟩
  · rw [given, ← record.sweeps, record.feeds]
    cases l.current with
    | none => rfl
    | some under => rfl
  · rw [sum_sweeps]
    exact violations.violations

def hesitant : Resources where
  plan := Tour.twoRungs
  repository := Repository.ofConfigs []
  client := some (Script.client { refuseLoad := [true] })

def hesitantSearch : Search (Logged ServerSweep Variant) LoadSweep :=
  (Search.ofPlan hesitant Tour.twoLoads false ⟨0⟩ {}).1.logged

/-- Fed before the first pull and after it failed; then the first probe is fed twice and the second
not at all. -/
def unruly : List (Deed Probe) × Search (Logged ServerSweep Variant) LoadSweep :=
  let early := (hesitantSearch.feed [] {}).1
  let failed := early.pull {}
  let late := (failed.source.feed [] {}).1
  let first := late.pull { calls := [.load "m"] }
  let twice := ((first.source.feed [] {}).1.feed strayBatch {}).1
  let second := twice.pull {}
  let third := second.source.pull {}
  ([.pulled third.result, .pulled second.result, .fed strayBatch, .fed [], .pulled first.result,
    .fed [], .pulled failed.result, .fed []], third.source)

theorem after_unruly : After hesitantSearch unruly.1 unruly.2 :=
  (((((((After.start.feed [] {}).pull {}).feed [] {}).pull { calls := [.load "m"] }).feed []
    {}).feed strayBatch {}).pull {}).pull {}

theorem server_kept_in_turn_unruly :
    After hesitantSearch unruly.1 unruly.2 ∧
    unruly.2.server.source.course.turn.violations = 0 ∧
    Deed.feeds unruly.2.server.past = 1 ∧ (Deed.given unruly.2.server.past).length = 2 ∧
    (Deed.given unruly.1).map Probe.number = [0, 1, 2] ∧
    unruly.2.turn.violations = 4 ∧ Deed.strays unruly.1 = 2 ∧
    (unruly.2.sweeps.map (fun sweep => sweep.turn.violations)).sum = 2 := by
  obtain ⟨-, polite, feeds, numbers, -, -, violations⟩ :=
    (server_kept_in_turn hesitant Tour.twoLoads false ⟨0⟩ {}).2 _ _ after_unruly
  have issued : unruly.2.issued = 3 := by decide +kernel
  have strays : Deed.strays unruly.1 = 2 := by decide +kernel
  have sum : (unruly.2.sweeps.map (fun sweep => sweep.turn.violations)).sum = 2 := by
    decide +kernel
  have given : (Deed.given unruly.2.server.past).length = 2 := by decide +kernel
  have under : unruly.2.current.isSome = true := by decide +kernel
  rw [given, under] at feeds
  rw [issued] at numbers
  rw [sum, strays] at violations
  exact ⟨after_unruly, polite, by simpa using feeds, given, numbers, violations, strays, sum⟩

end Search
end ServingSweep
