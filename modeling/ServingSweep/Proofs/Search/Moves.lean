import Mathlib.Logic.Relation
import ServingSweep.Proofs.Sweep.Play
import ServingSweep.Search

/-!
What a search does, call by call. Within a pull it makes `Move`s, closing a variant or opening the
next one, until the pull `Ends`; `pull_moves` says that nothing else happens. An `Invariant` is
checked against moves, ends and feeding once, and holds of every search after any calls.
-/

namespace ServingSweep
namespace Search
open Source Relation
variable {σ τ : Type}

section Moves
variable [FiniteSource σ Variant] [Source τ Load]

inductive Move : Search σ τ → Search σ τ → Prop where
  | closes {s : Search σ τ} {variant : Variant} {sweep : τ} {w : World} (later : World)
      (current : s.current = some (variant, sweep))
      (ended : (Source.pull sweep w).result = .ok none) :
      Move s (s.close variant (Source.pull sweep w).source later).1
  | opens {s : Search σ τ} {variant : Variant} {w : World} (idle : s.current = none)
      (given : (Source.pull s.server w).result = .ok (some variant)) :
      Move s { s with
        server := (Source.pull s.server w).source
        current := some (variant, s.makeLoad s.opened variant)
        opened := variant :: s.opened }

inductive Ends : Search σ τ → Except Fault (Option Probe) → Search σ τ → Prop where
  | gives {s : Search σ τ} {variant : Variant} {sweep : τ} {w : World} {load : Load}
      (current : s.current = some (variant, sweep))
      (given : (Source.pull sweep w).result = .ok (some load)) :
      Ends s (.ok (some ⟨s.run, s.issued, s.model, variant, load⟩)) { s with
        current := some (variant, (Source.pull sweep w).source)
        issued := s.issued + 1
        turn := s.turn.yielded }
  | loadFails {s : Search σ τ} {variant : Variant} {sweep : τ} {w : World} {fault : Fault}
      (current : s.current = some (variant, sweep))
      (failed : (Source.pull sweep w).result = .error fault) :
      Ends s (.error fault) { s with current := some (variant, (Source.pull sweep w).source) }
  | serverFails {s : Search σ τ} {w : World} {fault : Fault} (idle : s.current = none)
      (failed : (Source.pull s.server w).result = .error fault) :
      Ends s (.error fault) { s with server := (Source.pull s.server w).source }
  | serverEnds {s : Search σ τ} {w : World} (idle : s.current = none)
      (ended : (Source.pull s.server w).result = .ok none) :
      Ends s (.ok none) { s with server := (Source.pull s.server w).source }

/-! ### Steps as moves -/

inductive Leads (s : Search σ τ) : Step σ τ → Prop where
  | finished {mid : Search σ τ} {pulled : Pulled (Search σ τ) Probe}
      (moves : ReflTransGen Move s mid) (ends : Ends mid pulled.result pulled.source) :
      Leads s (.finished pulled)
  | onward {next : Search σ τ} (w : World) (moves : ReflTransGen Move s next) :
      Leads s (.onward next w)

theorem leads_openNext {s : Search σ τ} (idle : s.current = none) (w : World) :
    Leads s (s.openNext w) := by
  unfold openNext
  dsimp only
  split
  · next fault failed => exact .finished .refl (.serverFails idle failed)
  · next ended => exact .finished .refl (.serverEnds idle ended)
  · next variant given => exact .onward _ (.single (.opens idle given))

omit [Source τ Load] in
theorem current_close (s : Search σ τ) (variant : Variant) (sweep : τ) (w : World) :
    (s.close variant sweep w).1.current = none := rfl

theorem Leads.after {s mid : Search σ τ} {step : Step σ τ} (first : Move s mid)
    (leads : Leads mid step) : Leads s step := by
  cases leads with
  | finished moves ends => exact .finished (moves.head first) ends
  | onward w moves => exact .onward w (moves.head first)

theorem leads_step (s : Search σ τ) (w : World) : Leads s (s.step w) := by
  unfold step
  split
  · next variant sweep current =>
    unfold stepIn
    dsimp only
    split
    · next fault failed => exact .finished .refl (.loadFails current failed)
    · next load given => exact .finished .refl (.gives current given)
    · next ended =>
      have closes := Move.closes (Source.pull sweep w).world current ended
      exact (leads_openNext (current_close s variant _ _) _).after closes
  · next idle => exact leads_openNext idle w

theorem steps_moves (s : Search σ τ) (w : World) :
    ∃ mid, ReflTransGen Move s mid ∧ Ends mid (s.steps w).result (s.steps w).source := by
  -- A round that goes on has opened a variant, so less is left of the server sweep.
  generalize bound : FiniteSource.ahead s.server = n
  induction n using Nat.strongRecOn generalizing s w with
  | ind n ih =>
    have leads := leads_step s w
    cases found : s.step w with
    | finished pulled =>
      rw [steps_finished found]
      rw [found] at leads
      cases leads with
      | finished moves ends => exact ⟨_, moves, ends⟩
    | onward next later =>
      rw [steps_onward found]
      rw [found] at leads
      cases leads with
      | onward _ moves =>
        have fewer := ahead_step found
        obtain ⟨mid, further, ends⟩ := ih _ (by omega) next later rfl
        exact ⟨mid, moves.trans further, ends⟩

/-- A pull is some moves and an end. -/
theorem pull_moves (s : Search σ τ) (w : World) :
    ∃ mid, ReflTransGen Move { s with turn := s.turn.pulled.start } mid ∧
      Ends mid (Source.pull s w).result (Source.pull s w).source :=
  steps_moves _ _

end Moves

/-! ### Invariants -/

section Invariants
variable [FiniteSource σ Variant] [Source τ Load]

omit [FiniteSource σ Variant] in
/-- Results go to the load sweep of the variant under load, if there is one. -/
theorem feed_cases (s : Search σ τ) (batch : Batch) (w : World) :
    (s.current = none ∧ (s.feed batch w).1 =
      { s with turn := s.turn.accepted, pending := s.pending.append batch }) ∨
    ∃ variant sweep later, s.current = some (variant, sweep) ∧ (s.feed batch w).1 =
      { s with
        turn := s.turn.accepted
        pending := s.pending.append batch
        current := some (variant, (Source.feed sweep batch later).1) } := by
  unfold feed
  dsimp only
  split
  · next idle => exact .inl ⟨idle, rfl⟩
  · next variant sweep current => exact .inr ⟨variant, sweep, _, current, rfl⟩

omit [FiniteSource σ Variant] in
/-- Feeding changes no more of a search than its turn, what is pending and what is under load. -/
theorem feed_eq (s : Search σ τ) (batch : Batch) (w : World) : ∃ current, (s.feed batch w).1 =
    { s with turn := s.turn.accepted, pending := s.pending.append batch, current := current } := by
  rcases feed_cases s batch w with ⟨-, same⟩ | ⟨_, _, _, -, same⟩
  · exact ⟨s.current, same⟩
  · exact ⟨_, same⟩

/-- `Rest` holds between calls and `Busy` within a pull, whatever is called. -/
structure Invariant (Rest Busy : List (Deed Probe) → Search σ τ → Prop) : Prop where
  begins : ∀ {past s}, Rest past s → Busy past { s with turn := s.turn.pulled.start }
  moves : ∀ {past s s'}, Busy past s → Move s s' → Busy past s'
  ends : ∀ {past s result s'}, Busy past s → Ends s result s' → Rest (.pulled result :: past) s'
  feeds : ∀ {past s} batch w, Rest past s → Rest (.fed batch :: past) (s.feed batch w).1

variable {Rest Busy : List (Deed Probe) → Search σ τ → Prop}

/-- A pull comes to its end busy. -/
theorem Invariant.ending (invariant : Invariant Rest Busy) {past : List (Deed Probe)}
    {s : Search σ τ} (rest : Rest past s) (w : World) :
    ∃ mid, Busy past mid ∧ Ends mid (Source.pull s w).result (Source.pull s w).source := by
  obtain ⟨mid, moves, ends⟩ := pull_moves s w
  refine ⟨mid, ?_, ends⟩
  clear ends
  induction moves with
  | refl => exact invariant.begins rest
  | tail _ move ih => exact invariant.moves ih move

theorem Invariant.pulled (invariant : Invariant Rest Busy) {past : List (Deed Probe)}
    {s : Search σ τ} (rest : Rest past s) (w : World) :
    Rest (.pulled (Source.pull s w).result :: past) (Source.pull s w).source := by
  obtain ⟨mid, busy, ends⟩ := invariant.ending rest w
  exact invariant.ends busy ends

theorem Invariant.holds (invariant : Invariant Rest Busy) {start s : Search σ τ}
    {past : List (Deed Probe)} (initial : Rest [] start) (reached : After start past s) :
    Rest past s := by
  induction reached with
  | start => exact initial
  | pull _ w ih => exact invariant.pulled ih w
  | feed _ batch w ih => exact invariant.feeds batch w ih

end Invariants

end Search
end ServingSweep
