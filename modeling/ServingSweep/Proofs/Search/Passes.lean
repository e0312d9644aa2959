import ServingSweep.Search

/-!
A pull of a search, step by step in its world: it `Pass`es from variant to variant until it `Stops`.
Either can be made of any search (`pass_or_stops`), and both tell what the pull comes to
(`steps_of_pass`, `steps_of_stops`), so `pull_rule` checks a property of pulls against them alone.
-/

namespace ServingSweep
namespace Search
variable {σ τ : Type} [FiniteSource σ Variant] [Source τ Load]

inductive Pass : Search σ τ → World → Search σ τ → World → Prop where
  | closes {s : Search σ τ} {w : World} {variant : Variant} {sweep : τ}
      (current : s.current = some (variant, sweep))
      (ended : (Source.pull sweep w).result = .ok none) :
      Pass s w (s.close variant (Source.pull sweep w).source (Source.pull sweep w).world).1
        (s.close variant (Source.pull sweep w).source (Source.pull sweep w).world).2
  | opens {s : Search σ τ} {w : World} {variant : Variant} (idle : s.current = none)
      (given : (Source.pull s.server w).result = .ok (some variant)) :
      Pass s w
        { s with
          server := (Source.pull s.server w).source
          current := some (variant, s.makeLoad s.opened variant)
          opened := variant :: s.opened }
        ((Source.pull s.server w).world.say (.profiling variant.name))

inductive Stops : Search σ τ → World → Pulled (Search σ τ) Probe → Prop where
  | gives {s : Search σ τ} {w : World} {variant : Variant} {sweep : τ} {load : Load}
      (current : s.current = some (variant, sweep))
      (given : (Source.pull sweep w).result = .ok (some load)) :
      Stops s w ⟨.ok (some ⟨s.run, s.issued, s.model, variant, load⟩), { s with
        current := some (variant, (Source.pull sweep w).source)
        issued := s.issued + 1
        turn := s.turn.yielded }, (Source.pull sweep w).world⟩
  | loadFails {s : Search σ τ} {w : World} {variant : Variant} {sweep : τ} {fault : Fault}
      (current : s.current = some (variant, sweep))
      (failed : (Source.pull sweep w).result = .error fault) :
      Stops s w ⟨.error fault, { s with current := some (variant, (Source.pull sweep w).source) },
        (Source.pull sweep w).world⟩
  | serverFails {s : Search σ τ} {w : World} {fault : Fault} (idle : s.current = none)
      (failed : (Source.pull s.server w).result = .error fault) :
      Stops s w ⟨.error fault, { s with server := (Source.pull s.server w).source },
        (Source.pull s.server w).world⟩
  | serverEnds {s : Search σ τ} {w : World} (idle : s.current = none)
      (ended : (Source.pull s.server w).result = .ok none) :
      Stops s w ⟨.ok none, { s with server := (Source.pull s.server w).source },
        (Source.pull s.server w).world⟩

theorem pass_or_stops (s : Search σ τ) (w : World) :
    (∃ s' w', Pass s w s' w') ∨ ∃ pulled, Stops s w pulled := by
  cases current : s.current with
  | some under =>
    obtain ⟨variant, sweep⟩ := under
    cases result : (Source.pull sweep w).result with
    | error fault => exact .inr ⟨_, .loadFails current result⟩
    | ok given =>
      cases given with
      | none => exact .inl ⟨_, _, .closes current result⟩
      | some load => exact .inr ⟨_, .gives current result⟩
  | none =>
    cases result : (Source.pull s.server w).result with
    | error fault => exact .inr ⟨_, .serverFails current result⟩
    | ok given =>
      cases given with
      | none => exact .inr ⟨_, .serverEnds current result⟩
      | some variant => exact .inl ⟨_, _, .opens current result⟩

/-! ### What a pull comes to -/

theorem steps_of_stops {s : Search σ τ} {w : World} {pulled : Pulled (Search σ τ) Probe}
    (stops : Stops s w pulled) : s.steps w = pulled := by
  refine steps_finished ?_
  cases stops with
  | gives current given => simp only [step, current, stepIn, given]
  | loadFails current failed => simp only [step, current, stepIn, failed]
  | serverFails idle failed => simp only [step, idle, openNext, failed]
  | serverEnds idle ended => simp only [step, idle, openNext, ended]

/-- A pull goes on as if it began where it has passed to. -/
theorem steps_of_pass {s s' : Search σ τ} {w w' : World} (pass : Pass s w s' w') :
    s.steps w = s'.steps w' := by
  cases pass with
  | @closes variant sweep current ended =>
    let closed := s.close variant (Source.pull sweep w).source (Source.pull sweep w).world
    have same : s.step w = closed.1.step closed.2 := by
      have idle : closed.1.current = none := rfl
      simp only [step, current, stepIn, ended, idle]
      rfl
    cases found : closed.1.step closed.2 with
    | finished pulled => rw [steps_finished found, steps_finished (same.trans found)]
    | onward next later => rw [steps_onward found, steps_onward (same.trans found)]
  | opens idle given =>
    refine steps_onward ?_
    simp only [step, idle, openNext, given]

/-- What is left of a pull: the variants to come, and the one under load. -/
def passesAhead (s : Search σ τ) : Nat := 2 * FiniteSource.ahead s.server + s.current.toList.length

theorem passesAhead_lt {s s' : Search σ τ} {w w' : World} (pass : Pass s w s' w') :
    s'.passesAhead < s.passesAhead := by
  cases pass with
  | @closes variant sweep current ended =>
    have fewer := FiniteSource.ahead_feed_le s.server s.gathered
      ((Source.pull sweep w).world.say (.sweepEnded variant.name s.pending.length))
    simp only [passesAhead, close, current, Option.toList_none, Option.toList_some,
      List.length_nil, List.length_singleton]
    omega
  | @opens variant idle given =>
    have fewer := FiniteSource.ahead_pull_lt s.server w variant given
    simp only [passesAhead, idle, Option.toList_none, Option.toList_some, List.length_nil,
      List.length_singleton]
    omega

/-- A property of searches within a pull that passes keep and that stops turn into a property of
what was pulled. -/
theorem steps_rule {I : Search σ τ → World → Prop} {P : Pulled (Search σ τ) Probe → Prop}
    (passes : ∀ {s w s' w'}, I s w → Pass s w s' w' → I s' w')
    (stops : ∀ {s w pulled}, I s w → Stops s w pulled → P pulled)
    {s : Search σ τ} {w : World} (busy : I s w) : P (s.steps w) := by
  generalize bound : s.passesAhead = n
  induction n using Nat.strongRecOn generalizing s w with
  | ind n ih =>
    rcases pass_or_stops s w with ⟨s', w', pass⟩ | ⟨pulled, stop⟩
    · have fewer := passesAhead_lt pass
      rw [steps_of_pass pass]
      exact ih _ (by omega) (passes busy pass) rfl
    · rw [steps_of_stops stop]
      exact stops busy stop

theorem pull_rule {I : Search σ τ → World → Prop} {P : Pulled (Search σ τ) Probe → Prop}
    (passes : ∀ {s w s' w'}, I s w → Pass s w s' w' → I s' w')
    (stops : ∀ {s w pulled}, I s w → Stops s w pulled → P pulled)
    {s : Search σ τ} {w : World}
    (busy : I { s with turn := s.turn.pulled.start } (w.sayAll (s.turn.pullEvents s.model))) :
    P (Source.pull s w) :=
  steps_rule passes stops busy

end Search
end ServingSweep
