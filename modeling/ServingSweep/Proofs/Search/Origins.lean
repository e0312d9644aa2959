import ServingSweep.Proofs.OwnName
import ServingSweep.Proofs.Search.Moves
import ServingSweep.Proofs.Sweep.Thorough

/-!
Where the trials of a search come from, under calls in any order: the variant is one that the server
sweep gave out, the load one that a load sweep of that variant gave out (`sourced`). If neither
sweep fails and both give something out at their first pull, so does the search (`productive`).
-/

namespace ServingSweep
open Source

def Source.Opens {σ α : Type} [Source σ α] (start : σ) : Prop :=
  ∀ w, ∃ a, (Source.pull start w).result = .ok (some a)

namespace Search
variable {σ τ : Type} [FiniteSource σ Variant] [Source τ Load] {server : σ}
  {makeLoad : List Variant → Variant → τ}

def LoadOf (makeLoad : List Variant → Variant → τ) (variant : Variant) (past : List (Deed Load))
    (sweep : τ) : Prop :=
  ∃ opened, After (makeLoad opened variant) past sweep

/-- The server sweep stands where its own calls led it, and all that is under load or was given out
comes from it and from load sweeps that were made for its variants. -/
structure Sourced (server : σ) (makeLoad : List Variant → Variant → τ) (past : List (Deed Probe))
    (s : Search σ τ) (calls : List (Deed Variant)) : Prop where
  makes : s.makeLoad = makeLoad
  server : After server calls s.server
  current : ∀ variant sweep, s.current = some (variant, sweep) →
    variant ∈ Deed.given calls ∧ ∃ past, LoadOf makeLoad variant past sweep
  given : ∀ probe ∈ Deed.given past, probe.variant ∈ Deed.given calls ∧
    ∃ past sweep, LoadOf makeLoad probe.variant past sweep ∧ probe.load ∈ Deed.given past

section Steps
variable {past : List (Deed Probe)} {s : Search σ τ} {calls : List (Deed Variant)} {variant : Variant}

theorem Sourced.rested (sourced : Sourced server makeLoad past s calls)
    (result : Except Fault (Option Probe)) (nothing : ∀ p, result ≠ .ok (some p)) :
    Sourced server makeLoad (.pulled result :: past) s calls where
  makes := sourced.makes
  server := sourced.server
  current := sourced.current
  given := by
    rw [Deed.given_rested nothing]
    exact sourced.given

theorem Sourced.gave (sourced : Sourced server makeLoad past s calls) (probe : Probe)
    (among : probe.variant ∈ Deed.given calls) {before : List (Deed Load)} {sweep : τ}
    (loads : LoadOf makeLoad probe.variant before sweep) (given : probe.load ∈ Deed.given before) :
    Sourced server makeLoad (.pulled (.ok (some probe)) :: past) s calls where
  makes := sourced.makes
  server := sourced.server
  current := sourced.current
  given := by
    intro other member
    rcases Deed.mem_given_pulled.mp member with now | earlier
    · cases now
      exact ⟨among, before, sweep, loads, given⟩
    · exact sourced.given other earlier

theorem Sourced.loaded (sourced : Sourced server makeLoad past s calls)
    (among : variant ∈ Deed.given calls) {before : List (Deed Load)} {sweep : τ}
    (loads : LoadOf makeLoad variant before sweep) :
    Sourced server makeLoad past { s with current := some (variant, sweep) } calls where
  makes := sourced.makes
  server := sourced.server
  current := by
    rintro _ _ ⟨⟩
    exact ⟨among, before, loads⟩
  given := sourced.given

/-- With nothing under load, the server sweep is pulled. -/
theorem Sourced.asked (sourced : Sourced server makeLoad past s calls) (idle : s.current = none)
    {w : World} {result : Except Fault (Option Variant)}
    (came : (Source.pull s.server w).result = result) :
    Sourced server makeLoad past { s with server := (Source.pull s.server w).source }
      (.pulled result :: calls) where
  makes := sourced.makes
  server := by
    rw [← came]
    exact sourced.server.pull w
  current := fun _ _ under => nomatch idle.symm.trans under
  given := by
    intro probe member
    obtain ⟨among, loads⟩ := sourced.given probe member
    rw [← came]
    exact ⟨Deed.mem_given_pulled.mpr (.inr among), loads⟩

theorem Sourced.moves {s' : Search σ τ} (sourced : Sourced server makeLoad past s calls)
    (move : Move s s') : ∃ calls, Sourced server makeLoad past s' calls := by
  cases move with
  | closes _ _ _ =>
    exact ⟨_, sourced.makes, sourced.server.feed s.gathered _, nofun, sourced.given⟩
  | @opens variant w idle gave =>
    have loaded := (sourced.asked idle gave).loaded (Deed.mem_given_pulled.mpr (.inl rfl))
      ⟨s.opened, .start⟩
    rw [← sourced.makes] at loaded ⊢
    exact ⟨_, { loaded with }⟩

theorem Sourced.ends {s' : Search σ τ} {result : Except Fault (Option Probe)}
    (sourced : Sourced server makeLoad past s calls) (ends : Ends s result s') :
    ∃ calls, Sourced server makeLoad (.pulled result :: past) s' calls := by
  cases ends with
  | @gives variant sweep w load under gave =>
    obtain ⟨among, before, opened, loads⟩ := sourced.current variant sweep under
    have further := loads.pull w
    rw [gave] at further
    have given := (sourced.loaded among ⟨opened, further⟩).gave
      ⟨s.run, s.issued, s.model, variant, load⟩ among ⟨opened, further⟩
      (Deed.mem_given_pulled.mpr (.inl rfl))
    exact ⟨calls, { given with }⟩
  | @loadFails variant sweep w fault under _ =>
    obtain ⟨among, before, opened, loads⟩ := sourced.current variant sweep under
    exact ⟨calls, (sourced.loaded among ⟨opened, loads.pull w⟩).rested _ nofun⟩
  | serverFails idle failed => exact ⟨_, (sourced.asked idle failed).rested _ nofun⟩
  | serverEnds idle ended => exact ⟨_, (sourced.asked idle ended).rested _ nofun⟩

end Steps

theorem sourced : Invariant (σ := σ) (τ := τ)
    (fun past s => ∃ calls, Sourced server makeLoad past s calls)
    (fun past s => ∃ calls, Sourced server makeLoad past s calls) where
  begins := fun ⟨calls, sourced⟩ => ⟨calls, { sourced with }⟩
  moves := fun ⟨_, sourced⟩ move => sourced.moves move
  ends := fun ⟨_, sourced⟩ ends => sourced.ends ends
  feeds := by
    rintro past s batch w ⟨calls, sourced⟩
    rcases feed_cases s batch w with ⟨_, same⟩ | ⟨variant, sweep, later, under, same⟩
    · rw [same]
      exact ⟨calls, { sourced with }⟩
    · rw [same]
      obtain ⟨among, before, opened, loads⟩ := sourced.current variant sweep under
      have loaded := sourced.loaded among ⟨opened, loads.feed batch later⟩
      exact ⟨calls, { loaded with }⟩

/-! ### Searches that do not fail -/

/-- Only its sweeps make a search fail. -/
theorem Sourced.result_ne_error {past : List (Deed Probe)} {s s' : Search σ τ}
    {calls : List (Deed Variant)} {result : Except Fault (Option Probe)}
    (soundServer : NeverFails server)
    (soundLoads : ∀ opened variant, NeverFails (makeLoad opened variant))
    (sourced : Sourced server makeLoad past s calls) (ends : Ends s result s') (fault : Fault) :
    result ≠ .error fault := by
  rintro rfl
  cases ends with
  | @loadFails variant sweep w _ under failed =>
    obtain ⟨-, before, opened, loads⟩ := sourced.current variant sweep under
    exact soundLoads opened variant _ _ w fault loads failed
  | @serverFails w _ idle failed => exact soundServer _ _ w fault sourced.server failed

theorem neverFails {start : Search σ τ} (idle : start.current = none)
    (soundServer : NeverFails start.server)
    (soundLoads : ∀ opened variant, NeverFails (start.makeLoad opened variant)) :
    NeverFails start := by
  intro past s w fault reached
  have origin : Sourced start.server start.makeLoad [] start [] :=
    ⟨rfl, .start, fun _ _ under => (nomatch idle.symm.trans under),
      fun _ impossible => (nomatch impossible)⟩
  obtain ⟨mid, ⟨calls, origin⟩, ends⟩ := sourced.ending (sourced.holds ⟨[], origin⟩ reached) w
  exact origin.result_ne_error soundServer soundLoads ends fault

/-! ### Searches that give something out -/

/-- Nothing failed, and something was given out unless nothing was asked for yet. -/
structure Productive (server : σ) (past : List (Deed Probe)) (s : Search σ τ) : Prop where
  sound : ∀ fault, .pulled (.error fault) ∉ past
  begun : Deed.given past ≠ [] ∨ Deed.pulls past = 0 ∧ s.current = none ∧ s.server = server

/-- Within a pull: unless something was given out before, the first variant is still to be opened or
has just been opened. -/
structure Producing (server : σ) (makeLoad : List Variant → Variant → τ) (past : List (Deed Probe))
    (s : Search σ τ) : Prop where
  sound : ∀ fault, .pulled (.error fault) ∉ past
  begun : Deed.given past ≠ [] ∨ s.current = none ∧ s.server = server ∨
    ∃ variant opened, s.current = some (variant, makeLoad opened variant)

theorem given_ne_nil_pulled {past : List (Deed Probe)} (given : Deed.given past ≠ [])
    (result : Except Fault (Option Probe)) : Deed.given (.pulled result :: past) ≠ [] := by
  obtain ⟨p, member⟩ := List.exists_mem_of_ne_nil _ given
  exact List.ne_nil_of_mem (Deed.mem_given_pulled.mpr (.inr member))

theorem sound_pulled {past : List (Deed Probe)} {result : Except Fault (Option Probe)}
    (sound : ∀ fault, .pulled (.error fault) ∉ past) (fine : ∀ fault, result ≠ .error fault) :
    ∀ fault, .pulled (.error fault) ∉ (.pulled result :: past : List (Deed Probe)) := by
  intro fault member
  rcases List.mem_cons.mp member with now | earlier
  · exact fine fault (Deed.pulled.inj now).symm
  · exact sound fault earlier

section Steps
variable {past : List (Deed Probe)} {s s' : Search σ τ} {calls : List (Deed Variant)}

theorem Producing.moves (openLoads : ∀ opened variant, Opens (makeLoad opened variant))
    (makes : s.makeLoad = makeLoad) (producing : Producing server makeLoad past s)
    (move : Move s s') : Producing server makeLoad past s' := by
  obtain ⟨sound, given | ⟨idle, fresh⟩ | ⟨variant, opened, under⟩⟩ := producing
  · exact ⟨sound, .inl given⟩
  · cases move with
    | closes later under ended => cases idle.symm.trans under
    | @opens variant w _ gave =>
      exact ⟨sound, .inr (.inr ⟨variant, s.opened, by rw [← makes]⟩)⟩
  · cases move with
    | @closes v sweep w later current ended =>
      -- A load sweep that was just made does not end.
      cases current.symm.trans under
      obtain ⟨load, gave⟩ := openLoads opened variant w
      cases ended.symm.trans gave
    | opens idle gave => cases idle.symm.trans under

theorem Producing.ends (soundServer : NeverFails server) (opens : Opens server)
    (soundLoads : ∀ opened variant, NeverFails (makeLoad opened variant))
    (sourced : Sourced server makeLoad past s calls) (producing : Producing server makeLoad past s)
    {result : Except Fault (Option Probe)} (ends : Ends s result s') :
    Productive server (.pulled result :: past) s' := by
  obtain ⟨sound, begun⟩ := producing
  have fine := sourced.result_ne_error soundServer soundLoads ends
  cases ends with
  | gives under gave =>
    refine ⟨sound_pulled sound nofun, .inl ?_⟩
    exact List.ne_nil_of_mem (Deed.mem_given_pulled.mpr (.inl rfl))
  | loadFails under failed => exact absurd rfl (fine _)
  | serverFails idle failed => exact absurd rfl (fine _)
  | @serverEnds w idle ended =>
    refine ⟨sound_pulled sound nofun, .inl ?_⟩
    rcases begun with given | ⟨-, fresh⟩ | ⟨variant, opened, under⟩
    · exact given_ne_nil_pulled given _
    · obtain ⟨variant, gave⟩ := opens w
      rw [fresh] at ended
      cases ended.symm.trans gave
    · cases idle.symm.trans under

omit [FiniteSource σ Variant] in
theorem Productive.feeds (productive : Productive server past s) (batch : Batch) (w : World) :
    Productive server (.fed batch :: past) (s.feed batch w).1 := by
  constructor
  · intro fault member
    rcases List.mem_cons.mp member with now | earlier
    · cases now
    · exact productive.sound fault earlier
  · refine productive.begun.imp_right (fun fresh => ⟨fresh.1, ?_⟩)
    rcases feed_cases s batch w with ⟨idle, same⟩ | ⟨variant, sweep, later, under, same⟩
    · rw [same]
      exact fresh.2
    · cases fresh.2.1.symm.trans under

end Steps

/-- If the sweeps neither fail nor end at their first pull, the search does not either. -/
theorem productive (sound : NeverFails server) (opens : Opens server)
    (soundLoads : ∀ opened variant, NeverFails (makeLoad opened variant))
    (openLoads : ∀ opened variant, Opens (makeLoad opened variant)) :
    Invariant (σ := σ) (τ := τ)
      (fun past s => (∃ calls, Sourced server makeLoad past s calls) ∧ Productive server past s)
      (fun past s => (∃ calls, Sourced server makeLoad past s calls) ∧
        Producing server makeLoad past s) where
  begins := fun ⟨origin, fine, begun⟩ =>
    ⟨sourced.begins origin, fine, begun.imp_right (fun fresh => .inl fresh.2)⟩
  moves := fun ⟨origin, producing⟩ move =>
    ⟨sourced.moves origin move, producing.moves openLoads origin.choose_spec.makes move⟩
  ends := fun ⟨origin, producing⟩ ends =>
    ⟨sourced.ends origin ends, producing.ends sound opens soundLoads origin.choose_spec ends⟩
  feeds := fun batch w ⟨origin, productive⟩ =>
    ⟨sourced.feeds batch w origin, productive.feeds batch w⟩

end Search
end ServingSweep
