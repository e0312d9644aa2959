import ServingSweep.Proofs.Control.Blocks
import ServingSweep.Proofs.Search.Passes
import ServingSweep.Proofs.Sweep.Worlds

/-!
Which pulls ask the server. A pull of a server sweep asks at most once, and not at all once the
sweep is `Settled`; as a variant is given out by settled sweeps only, a pull of a search asks no
more than that.
-/

namespace ServingSweep
open Source

namespace ServerSweep

/-- The sweep asks nobody any more: it knows its base, or walks nothing and has begun. -/
def Settled (s : ServerSweep) : Prop :=
  s.strategy ≠ .remote ∧ s.base ≠ none ∨
    s.strategy.isAdaptive = false ∧ s.course.turn.started = true

def Asks (c : Client) (s : ServerSweep) (before after : List Call) (fault : Option Fault) : Prop :=
  after = before ∨ ¬ s.Settled ∧ (s.strategy ≠ .remote → s.resources.Lacks s.model.name) ∧
    ∃ made, after = before ++ made ∧ Contact c s.resources.plan s.model.name
      (s.strategy = .remote ∧ s.resources.plan.keepLoaded = true) before made fault

variable {s : ServerSweep} {c : Client}

/-! ### Offers -/

/-- An offer asks the server where the base is neither known nor in the repository. -/
theorem calls_offer (uses : s.resources.Uses c) (o : Overrides) (w : World) :
    ((s.offer o w).world.calls = w.calls ∨
      s.base = none ∧ s.resources.Lacks s.model.name ∧
      ∃ made, (s.offer o w).world.calls = w.calls ++ made ∧ Contact c s.resources.plan s.model.name
        False w.calls made (faultOf (s.offer o w).result)) ∧
    (s.offer o w).source.strategy = s.strategy ∧
    (s.base ≠ none → faultOf (s.offer o w).result = none) ∧
    (s.base ≠ none ∨ (∃ v, (s.offer o w).result = .ok (some v)) →
      (s.offer o w).source.base ≠ none) := by
  cases known : s.base with
  | some base =>
    rw [offer_known known]
    refine ⟨.inl rfl, rfl, fun _ => rfl, fun _ => ?_⟩
    change s.base ≠ none
    rw [known]
    exact Option.some_ne_none base
  | none =>
    have asked := Resources.calls_base uses s.model.name w
    rcases offer_sought known o w with ⟨fault, later, answer, same⟩ | ⟨base, later, answer, same⟩
    · rw [same]
      rw [answer] at asked
      refine ⟨asked.imp_right (fun asked => ⟨rfl, asked⟩), rfl, fun found => absurd rfl found, ?_⟩
      rintro (found | ⟨v, given⟩)
      · exact absurd rfl found
      · cases given
    · rw [same]
      rw [answer] at asked
      exact ⟨asked.imp_right (fun asked => ⟨rfl, asked⟩), rfl, fun _ => rfl,
        fun _ => Option.some_ne_none base⟩

/-- The offer of a remote server asks it. -/
theorem calls_offerRemote (uses : s.resources.Uses c) (w : World) :
    ((s.offerRemote w).world.calls = w.calls ∨
      ∃ made, (s.offerRemote w).world.calls = w.calls ++ made ∧
        Contact c s.resources.plan s.model.name (s.resources.plan.keepLoaded = true) w.calls made
          (faultOf (s.offerRemote w).result)) ∧
    (s.offerRemote w).source.strategy = s.strategy ∧
    (s.course.turn.started = true → (s.offerRemote w).source.course.turn.started = true) := by
  have asked := Resources.calls_askServer uses s.model.name (!s.resources.plan.keepLoaded) w
  rw [Bool.not_eq_false'] at asked
  rcases s.offerRemote_asked w with ⟨fault, later, answer, same⟩ | ⟨config, later, answer, same⟩
  · rw [answer] at asked
    rw [same]
    exact ⟨asked, rfl, id⟩
  · rw [answer] at asked
    rw [same]
    exact ⟨asked, rfl, fun _ => rfl⟩

/-! ### Pulls -/

/-- An offer of a local sweep that has stepped on to `course`. -/
theorem leaves_offer (uses : s.resources.Uses c) (here : s.strategy ≠ .remote)
    (knows : s.Settled → s.base ≠ none) (course : Course Overrides) (o : Overrides) (w : World) :
    let p := { s with course := course }.offer o w
    s.Asks c w.calls p.world.calls (faultOf p.result) ∧ (s.Settled → faultOf p.result = none) ∧
      (s.Settled ∨ s.strategy = .remote ∨ (∃ v, p.result = .ok (some v)) → p.source.Settled) := by
  obtain ⟨asked, still, sound, found⟩ := calls_offer (s := { s with course := course }) uses o w
  refine ⟨?_, fun settled => sound (knows settled), ?_⟩
  · rcases asked with same | ⟨unknown, lacks, made, calls, shape, answer⟩
    · exact .inl same
    · exact .inr ⟨fun settled => knows settled unknown, fun _ => lacks, made, calls,
        .inl (shape.resolve_right And.left), answer⟩
  · intro either
    refine .inl ⟨?_, found ?_⟩
    · rw [still]
      exact here
    · rcases either with settled | remote | given
      · exact .inl (knows settled)
      · exact absurd remote here
      · exact .inr given

/-- What a remote sweep that has not begun asks when it begins. -/
theorem leaves_offerRemote (uses : s.resources.Uses c) (remote : s.strategy = .remote)
    (fresh : ¬ s.Settled) (course : Course Overrides) (begun : course.turn.started = true)
    (w : World) :
    let p := { s with course := course }.offerRemote w
    s.Asks c w.calls p.world.calls (faultOf p.result) ∧ (s.Settled → faultOf p.result = none) ∧
      p.source.Settled := by
  obtain ⟨asked, still, started⟩ := calls_offerRemote (s := { s with course := course }) uses w
  refine ⟨?_, fun settled => absurd settled fresh, .inr ⟨?_, started begun⟩⟩
  · rcases asked with same | ⟨made, calls, shape, answer⟩
    · exact .inl same
    · refine .inr ⟨fresh, fun local_ => absurd remote local_, made, calls, ?_, answer⟩
      exact shape.imp_right (fun alone => ⟨⟨remote, alone.1⟩, alone.2⟩)
  · rw [still, show _ = s.strategy from rfl, remote]
    rfl

/-- A pull asks at most one question. A settled sweep asks none and does not fail; a sweep that has
given out a variant is settled, and so is a remote one after any pull. -/
theorem leaves_pull (uses : s.resources.Uses c) (w : World) :
    s.Asks c w.calls (s.pull w).world.calls (faultOf (s.pull w).result) ∧
      (s.Settled → faultOf (s.pull w).result = none) ∧
      (s.Settled ∨ s.strategy = .remote ∨ (∃ v, (s.pull w).result = .ok (some v)) →
        (s.pull w).source.Settled) := by
  have calls : (s.advance w).2.calls = w.calls := Course.calls_advance s.course w
  have started : (s.advance w).1.course.turn.started = s.course.turn.started :=
    Course.started_advance s.course w
  cases done : (s.advance w).1.isDone with
  | true =>
    have pulled : s.pull w = ⟨.ok none, (s.advance w).1, (s.advance w).2⟩ := by
      simp only [pull, done, if_true]
    rw [pulled]
    refine ⟨.inl calls, fun _ => rfl, ?_⟩
    have begun : (s.advance w).1.course.turn.started = true := (Bool.and_eq_true_iff.mp done).1
    rintro ((known | ⟨fixed, -⟩) | remote | ⟨v, given⟩)
    · exact .inl known
    · exact .inr ⟨fixed, begun⟩
    · refine .inr ⟨?_, begun⟩
      change s.strategy.isAdaptive = false
      rw [remote]
      rfl
    · cases given
  | false =>
    have pulled : s.pull w = (s.advance w).1.start.current (s.advance w).2 := by
      simp only [pull, done, Bool.false_eq_true, if_false]
    -- A sweep that walks nothing has not begun, or it would be done.
    have knows : s.Settled → s.strategy ≠ .remote ∧ s.base ≠ none := by
      rintro (known | ⟨fixed, begun⟩)
      · exact known
      · have finished : (s.advance w).1.isDone = true := by
          change ((s.advance w).1.course.turn.started &&
            (!s.strategy.isAdaptive || (s.advance w).1.course.rows.isEmpty)) = true
          rw [started, begun, fixed]
          rfl
        cases done.symm.trans finished
    rw [pulled, ← calls]
    unfold current
    split
    · next remote =>
      have fresh : ¬ s.Settled := fun settled => (knows settled).1 remote
      obtain ⟨asks, sound, settled⟩ := leaves_offerRemote uses remote fresh
        (s.advance w).1.start.course rfl (s.advance w).2
      exact ⟨asks, sound, fun _ => settled⟩
    · next baseline =>
      exact leaves_offer uses (fun remote => nomatch baseline.symm.trans remote)
        (fun settled => (knows settled).2) (s.advance w).1.start.course [] (s.advance w).2
    all_goals
      next rows walks =>
      have here : s.strategy ≠ .remote := fun remote => nomatch walks.symm.trans remote
      split
      · refine ⟨.inl rfl, fun _ => rfl, ?_⟩
        rintro (settled | remote | ⟨v, given⟩)
        · exact .inl (knows settled)
        · exact absurd remote here
        · cases given
      · next o _ =>
        exact leaves_offer uses here (fun settled => (knows settled).2)
          (s.advance w).1.start.course o (s.advance w).2

/-- A sweep of the same kind may ask what is left to ask. -/
theorem asks_trans {t : ServerSweep} {before mid after : List Call} {fault : Option Fault}
    (continues : s.Continues t) (first : s.Asks c before mid none)
    (quiet : mid = before ∨ t.Settled) (still : s.Settled → t.Settled)
    (second : t.Asks c mid after fault) (sound : t.Settled → fault = none) : s.Asks c before after fault := by
  obtain ⟨model, resources, strategy⟩ := continues
  rcases second with rfl | ⟨unsettled, lacks, contact⟩
  · rcases quiet with rfl | settled
    · exact .inl rfl
    · rw [sound settled]
      exact first
  · obtain rfl : mid = before := quiet.resolve_right unsettled
    rw [model, resources, strategy] at contact lacks
    exact .inr ⟨fun settled => unsettled (still settled), lacks, contact⟩

end ServerSweep

/-! ### Pulls of a search -/

namespace Search
open ServerSweep

/-- A pull asks at most one question, and a remote server once for all pulls. -/
theorem leaves_pull {s : ModelSearch} {c : Client} (uses : s.server.resources.Uses c) (w : World) :
    let p := Source.pull s w
    s.server.Asks c w.calls p.world.calls (faultOf p.result) ∧
      (s.server.Settled → p.source.server.Settled) ∧
      (s.server.strategy = .remote → p.world.calls = w.calls ∨ p.source.server.Settled) := by
  -- Within the pull nothing was asked so far, or the server sweep is settled by what was.
  let Within (t : ModelSearch) (later : World) : Prop :=
    s.server.Continues t.server ∧ s.server.Asks c w.calls later.calls none ∧
      (later.calls = w.calls ∨ t.server.Settled) ∧ (s.server.Settled → t.server.Settled)
  have pulled {t : ModelSearch} {later : World} (within : Within t later) :
      s.server.Asks c w.calls (Source.pull t.server later).world.calls
        (faultOf (Source.pull t.server later).result) ∧
      (s.server.Settled ∨ t.server.strategy = .remote ∨
        (∃ v, (Source.pull t.server later).result = .ok (some v)) →
          (Source.pull t.server later).source.Settled) := by
    obtain ⟨same, asks, quiet, still⟩ := within
    obtain ⟨second, sound, settled⟩ :=
      ServerSweep.leaves_pull (s := t.server) (same.resources ▸ uses) later
    exact ⟨asks_trans same asks quiet still second sound,
      fun either => settled (either.imp_left still)⟩
  refine pull_rule (I := Within) (P := fun p =>
    s.server.Asks c w.calls p.world.calls (faultOf p.result) ∧
      (s.server.Settled → p.source.server.Settled) ∧
      (s.server.strategy = .remote → p.world.calls = w.calls ∨ p.source.server.Settled)) ?_ ?_ ?_
  · intro t later t' later' within pass
    cases pass with
    | @closes variant sweep current ended =>
      have calls : (Source.pull sweep later).world.calls = later.calls :=
        Course.calls_pull sweep later
      obtain ⟨⟨model, resources, strategy⟩, asks, quiet, still⟩ := within
      rw [← calls] at asks quiet
      exact ⟨⟨model, resources, strategy⟩, asks, quiet, still⟩
    | @opens variant idle given =>
      obtain ⟨asks, settled⟩ := pulled within
      have settled := settled (.inr (.inr ⟨variant, given⟩))
      rw [given] at asks
      exact ⟨within.1.trans (t.server.continues_pull later), asks, .inr settled, fun _ => settled⟩
  · intro t later p within stops
    cases stops with
    | @gives variant sweep load current given =>
      have calls : (Source.pull sweep later).world.calls = later.calls :=
        Course.calls_pull sweep later
      obtain ⟨-, asks, quiet, still⟩ := within
      rw [← calls] at asks quiet
      exact ⟨asks, still, fun _ => quiet⟩
    | @loadFails variant sweep fault current failed =>
      rcases Course.pull_cases sweep later with ⟨-, same⟩ | ⟨load, -, same⟩
      · cases failed.symm.trans (congrArg Pulled.result same)
      · cases failed.symm.trans (congrArg Pulled.result same)
    | serverFails idle failed =>
      obtain ⟨asks, settled⟩ := pulled within
      rw [failed] at asks
      exact ⟨asks, fun before => settled (.inl before),
        fun remote => .inr (settled (.inr (.inl (within.1.strategy.trans remote))))⟩
    | serverEnds idle ended =>
      obtain ⟨asks, settled⟩ := pulled within
      rw [ended] at asks
      exact ⟨asks, fun before => settled (.inl before),
        fun remote => .inr (settled (.inr (.inl (within.1.strategy.trans remote))))⟩
  · exact ⟨.refl _, .inl rfl, .inl rfl, id⟩

end Search
end ServingSweep
