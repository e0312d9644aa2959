import ServingSweep.Proofs.Sweep.Asks
import ServingSweep.Proofs.Sweep.Feedback
import ServingSweep.Proofs.Sweep.Thorough

/-!
What a sweep gives out when its results come in turn. An itinerary is read off the rows and what
each item was worth, without a cursor; by `keepsTo_of_walks` a sweep whose pulls do not fail gives
out its itinerary, place by place, whatever is fed to it or left out.
-/

namespace ServingSweep
open Source
open scoped List

namespace Walk
variable {α β : Type}

/-- A visit that notes its item, which is worth what is said of its place. -/
def note (worth : Nat → Option Binary64) (a : α) (seen : List α) : Option Binary64 × List α :=
  (worth seen.length, seen ++ [a])

/-- The items of a walk over rows, where the item in place `n` is worth `worth n`. -/
def itinerary (exit : Bool) (worth : Nat → Option Binary64) (lists : List (List α)) : List α :=
  rows exit (note worth) lists []

variable {exit : Bool} {worth : Nat → Option Binary64}

theorem row_cons (earlier : List Binary64) (a : α) (items seen : List α) :
    row exit (note worth) earlier (a :: items) seen =
      if exit && !improves earlier (worth seen.length) then seen ++ [a]
      else row exit (note worth) (earlier ++ (worth seen.length).toList) items (seen ++ [a]) :=
  rfl

theorem exists_prefix_row (earlier : List Binary64) (items seen : List α) :
    ∃ part, part <+: items ∧ row exit (note worth) earlier items seen = seen ++ part := by
  induction items generalizing earlier seen with
  | nil => exact ⟨[], List.prefix_refl _, (List.append_nil seen).symm⟩
  | cons a items ih =>
    rw [row_cons]
    by_cases stop : (exit && !improves earlier (worth seen.length)) = true
    · rw [if_pos stop]
      exact ⟨[a], ⟨items, rfl⟩, rfl⟩
    · obtain ⟨part, front, same⟩ :=
        ih (earlier ++ (worth seen.length).toList) (seen ++ [a])
      refine ⟨a :: part, List.cons_prefix_cons.mpr ⟨rfl, front⟩, ?_⟩
      rw [if_neg stop, same, List.append_assoc]
      rfl

theorem exists_sublist_rows (lists : List (List α)) (seen : List α) :
    ∃ part, part <+ lists.flatten ∧ rows exit (note worth) lists seen = seen ++ part := by
  induction lists generalizing seen with
  | nil => exact ⟨[], List.Sublist.refl _, (List.append_nil seen).symm⟩
  | cons items lists ih =>
    obtain ⟨first, front, same⟩ := @exists_prefix_row α exit worth [] items seen
    obtain ⟨rest, within, further⟩ := ih (seen ++ first)
    refine ⟨first ++ rest, front.sublist.append within, ?_⟩
    change rows exit (note worth) lists (row exit (note worth) [] items seen) = _
    rw [same, further, List.append_assoc]

theorem itinerary_sublist (lists : List (List α)) :
    itinerary exit worth lists <+ lists.flatten := by
  obtain ⟨part, within, same⟩ := @exists_sublist_rows α exit worth lists []
  rw [itinerary, same]
  exact within

theorem prefix_resume (earlier : List Binary64) (lists : List (List α)) (seen : List α) :
    seen <+: resume exit (note worth) earlier lists seen := by
  cases lists with
  | nil => exact List.prefix_refl _
  | cons items lists =>
    obtain ⟨first, -, same⟩ :=
      @exists_prefix_row α exit worth earlier items seen
    obtain ⟨rest, -, further⟩ :=
      @exists_sublist_rows α exit worth lists (seen ++ first)
    refine ⟨first ++ rest, ?_⟩
    rw [resume, same, further, List.append_assoc]

theorem row_map (f : α → β) (earlier : List Binary64) (items seen : List α) :
    row exit (note worth) earlier (items.map f) (seen.map f) =
      (row exit (note worth) earlier items seen).map f := by
  induction items generalizing earlier seen with
  | nil => rfl
  | cons a items ih =>
    have noted : seen.map f ++ [f a] = (seen ++ [a]).map f := by simp
    rw [List.map_cons, row_cons, row_cons, List.length_map, noted, ih]
    exact (apply_ite (List.map f) _ _ _).symm

theorem itinerary_map (f : α → β) (lists : List (List α)) :
    itinerary exit worth (lists.map (List.map f)) = (itinerary exit worth lists).map f := by
  have all : ∀ (lists : List (List α)) (seen : List α),
      rows exit (note worth) (lists.map (List.map f)) (seen.map f) =
        (rows exit (note worth) lists seen).map f := by
    intro lists
    induction lists with
    | nil => exact fun _ => rfl
    | cons items lists ih =>
      intro seen
      change rows exit (note worth) (lists.map (List.map f))
        (row exit (note worth) [] (items.map f) (seen.map f)) = _
      rw [row_map]
      exact ih _
  exact all lists []

end Walk

/-! ### Histories of calls -/

theorem Source.Driven.after_asks {σ α : Type} [Source σ α] {start : σ} {d : Driven σ α}
    (reached : After start d.past d.source) (calls : List Ask) :
    After start (d.asks calls).past (d.asks calls).source := by
  induction calls generalizing d with
  | nil => exact reached
  | cons call calls ih =>
    cases call with
    | pull => exact ih (d := d.ask .pull) (reached.pull d.world)
    | feed batch => exact ih (d := d.ask (.feed batch)) (reached.feed batch d.world)

namespace Source.Deed
variable {α : Type}

def results : List (Deed α) → List (Except Fault (Option α))
  | [] => []
  | .pulled result :: past => results past ++ [result]
  | .fed _ :: past => results past

/-- What was fed last between pull `n` and the next one, the pulls counted from zero; nothing
where nothing was. -/
def reply : List (Deed α) → Nat → Batch
  | [], _ => []
  | .pulled _ :: past, n => reply past n
  | .fed batch :: past, n => if n + 1 = pulls past then batch else reply past n

/-- The best value of what was fed between a pull and the next one. -/
def worth (metric : String) (past : List (Deed α)) (n : Nat) : Option Binary64 :=
  (reply past n).best metric

theorem length_results (past : List (Deed α)) : (results past).length = pulls past := by
  induction past with
  | nil => rfl
  | cons deed past ih =>
    cases deed with
    | pulled result => simp [results, pulls, ih]
    | fed batch => exact ih

theorem reply_of_pulls_le {past : List (Deed α)} {n : Nat} (unpulled : pulls past ≤ n) :
    reply past n = [] := by
  induction past with
  | nil => rfl
  | cons deed past ih =>
    cases deed with
    | pulled result =>
      simp only [pulls] at unpulled
      exact ih (by omega)
    | fed batch =>
      simp only [pulls] at unpulled
      rw [reply, if_neg (by omega)]
      exact ih unpulled

theorem worth_fed {metric : String} {past : List (Deed α)} {n : Nat} (batch : Batch)
    (before : n + 1 ≠ pulls past) : worth metric (.fed batch :: past) n = worth metric past n := by
  rw [worth, worth, reply, if_neg before]

theorem results_pulled {past : List (Deed α)} {result : Except Fault (Option α)} {n : Nat}
    (before : n < pulls past) : (results (.pulled result :: past))[n]? = (results past)[n]? := by
  rw [← length_results] at before
  rw [results, List.getElem?_append_left before]

theorem results_pulled_last (past : List (Deed α)) (result : Except Fault (Option α)) :
    (results (.pulled result :: past))[pulls past]? = some result := by
  rw [results, ← length_results, List.getElem?_concat_length]

end Source.Deed

/-- Each pull gave out the next one of some items, and ended when there was none. -/
def Source.Deed.GaveOut {α β : Type} (made : β → α → Prop) (items : List β)
    (past : List (Deed α)) : Prop :=
  ∀ n < Deed.pulls past, ∃ given, (Deed.results past)[n]? = some (.ok given) ∧
    Option.Rel made items[n]? given

theorem Source.Deed.GaveOut.imp {α β : Type} {made made' : β → α → Prop} {items : List β}
    {past : List (Deed α)} (gave : Deed.GaveOut made items past)
    (still : ∀ b a, made b a → made' b a) : Deed.GaveOut made' items past := by
  intro n before
  obtain ⟨given, pulled, same⟩ := gave n before
  refine ⟨given, pulled, ?_⟩
  revert same
  generalize items[n]? = item
  intro same
  cases same with
  | none => exact .none
  | some same => exact .some (still _ _ same)

theorem Source.Deed.GaveOut.results_eq {α : Type} {items : List α} {past : List (Deed α)}
    (gave : Deed.GaveOut Eq items past) :
    Deed.results past = (List.range (Deed.pulls past)).map (fun n => .ok items[n]?) := by
  refine List.ext_getElem (by simp [Deed.length_results]) (fun n within _ => ?_)
  rw [Deed.length_results] at within
  obtain ⟨given, pulled, same⟩ := gave n within
  have equal : items[n]? = given := by
    revert same
    generalize items[n]? = item
    intro same
    cases same with
    | none => rfl
    | some same => rw [same]
  rw [List.getElem_map, List.getElem_range, equal]
  exact (List.getElem_eq_iff _).mpr pulled

/-! ### Courses in turn -/

namespace Course
variable {α β : Type}

structure Fresh (c : Course β) : Prop where
  settled : c.turn.outstanding = false
  empty : c.results = []
  unjudged : c.progress.history = []

def itinerary (c : Course β) (worth : Nat → Option Binary64) : List β :=
  c.walk (Walk.note worth) []

theorem Fresh.itinerary_eq {c : Course β} (fresh : c.Fresh) (worth : Nat → Option Binary64) :
    c.itinerary worth = Walk.itinerary c.earlyExit worth c.rows.lists := by
  rw [itinerary, walk, fresh.unjudged, Walk.resume_nil]
  rfl

/-- The itinerary of `start` is that of `c` after the items `seen`, whatever the later items will be
worth. -/
def GoesOn (start : Course β) (past : List (Deed α)) (seen : List β) (c : Course β) : Prop :=
  ∀ worth, (∀ n < seen.length, worth n = Deed.worth start.progress.metric past n) →
    start.itinerary worth = c.walk (Walk.note worth) seen

/-- Where a course stands in its itinerary, if results came in turn: the items given out, the
outstanding one last. -/
inductive Stands (start : Course β) : List (Deed α) → List β → Course β → Prop where
  | begins : Stands start [] [] start
  | due {past : List (Deed α)} {seen : List β} {c : Course β} {b : β}
      (outstanding : c.turn.outstanding = true) (current : c.current? = some b)
      (place : Deed.pulls past = seen.length + 1) (results : c.results = Deed.reply past seen.length)
      (metric : c.progress.metric = start.progress.metric) (goesOn : GoesOn start past seen c) :
      Stands start past (seen ++ [b]) c
  | ended {past : List (Deed α)} {seen : List β} {c : Course β}
      (settled : c.turn.outstanding = false) (exhausted : c.rows = .nil)
      (done : seen.length < Deed.pulls past) (goesOn : GoesOn start past seen c) :
      Stands start past seen c

theorem Pulls.kept {c c' : Course β} {result : Except Fault (Option α)} (pulls : Pulls c result c') :
    c'.results = (if c.turn.outstanding then [] else c.results) ∧
      c'.progress.metric = c.progress.metric := by
  cases pulls with
  | ended w => exact ⟨results_advance c w, metric_advance c w⟩
  | withheld w nothing => exact ⟨results_advance c w, metric_advance c w⟩
  | gave a w there => exact ⟨results_advance c w, metric_advance c w⟩

theorem Pulls.walk_eq {σ : Type} {c c' : Course β} {result : Except Fault (Option α)}
    (pulls : Pulls c result c') (settled : c.turn.outstanding = false)
    (visit : β → σ → Option Binary64 × σ) (s : σ) : c'.walk visit s = c.walk visit s := by
  have still (w : World) : (c.advance w).1.walk visit s = c.walk visit s := by
    rw [advance_of_settled settled]
    rfl
  cases pulls with
  | ended w => exact still w
  | withheld w nothing => exact still w
  | gave a w there => exact still w

theorem goesOn_pulled {start c c' : Course β} {past : List (Deed α)} {given : List β}
    {result : Except Fault (Option α)} (fresh : start.Fresh) (stands : Stands start past given c)
    (pulls : Pulls c result c') : GoesOn start (.pulled result :: past) given c' := by
  intro worth agrees
  cases stands with
  | begins => exact (pulls.walk_eq fresh.settled _ _).symm
  | @due _ seen _ b outstanding current place results metric goesOn =>
    rw [List.length_append, List.length_singleton] at agrees
    have step := stepped_pulls pulls outstanding current
    -- The pull settles what the outstanding item was worth, so the walk goes past it.
    have visited : Walk.note worth b seen =
        (c.results.best c.progress.metric, seen ++ [b]) := by
      rw [Walk.note, agrees seen.length (Nat.lt_succ_self _), results, metric]
      rfl
    rw [goesOn worth (fun n before => agrees n (Nat.lt_succ_of_lt before))]
    exact walk_stepped current visited step
  | ended settled exhausted done goesOn =>
    rw [goesOn worth agrees]
    exact (pulls.walk_eq settled _ _).symm

/-- A pull that does not fail gives out the next item or ends. -/
theorem stands_pulled {start c c' : Course β} {past : List (Deed α)} {given : List β}
    {made : β → α → Prop} {result : Except Fault (Option α)} (fresh : start.Fresh)
    (stands : Stands start past given c) (pulls : Pulls c result c')
    (offers : Offers made c result c') (sound : ∀ fault, result ≠ .error fault) :
    ∃ given', Stands start (.pulled result :: past) given' c' ∧
      (∀ n < Deed.pulls past, given'[n]? = given[n]?) ∧
      ∃ next, result = .ok next ∧ Option.Rel made given'[Deed.pulls past]? next := by
  have goesOn := goesOn_pulled fresh stands pulls
  have few : given.length ≤ Deed.pulls past := by
    cases stands with
    | begins => exact Nat.le_refl _
    | due outstanding current place results metric goesOn => simp [place]
    | ended settled exhausted done goesOn => exact Nat.le_of_lt done
  cases offers with
  | failed w fault rows settled => exact absurd rfl (sound fault)
  | ended w finished rows settled =>
    have exhausted : c'.rows = .nil := by
      rw [rows]
      exact Rows.eq_nil_of_current? finished
    have last : given[Deed.pulls past]? = none := List.getElem?_eq_none few
    refine ⟨given, .ended settled exhausted (Nat.lt_succ_of_le few) goesOn, fun _ _ => rfl,
      none, rfl, ?_⟩
    rw [last]
    exact .none
  | @gave _ a b w same current rows due =>
    have next : c'.current? = some b := by
      rw [current?, rows]
      exact current
    obtain ⟨results, metric⟩ := pulls.kept
    have stood : Deed.pulls past = given.length ∧ c'.results = [] ∧
        c.progress.metric = start.progress.metric := by
      cases stands with
      | begins => exact ⟨rfl, by rw [results, fresh.settled, fresh.empty]; rfl, rfl⟩
      | due outstanding current place _ metric goesOn =>
        exact ⟨by simp [place], by rw [results, outstanding]; rfl, metric⟩
      | ended settled exhausted done goesOn =>
        rw [current?, rows_advance_of_nil exhausted w] at current
        cases current
    obtain ⟨place, empty, metric'⟩ := stood
    have unanswered : c'.results = Deed.reply (.pulled (.ok (some a)) :: past) given.length := by
      rw [empty]
      exact (Deed.reply_of_pulls_le (Nat.le_of_eq place)).symm
    refine ⟨given ++ [b], .due due next (congrArg Nat.succ place) unanswered
      (metric.trans metric') goesOn, ?_, some a, rfl, ?_⟩
    · intro n before
      rw [List.getElem?_append_left (by omega)]
    · rw [place, List.getElem?_concat_length]
      exact .some same

theorem stands_fed {start c : Course β} {past : List (Deed α)} {given : List β}
    (fresh : start.Fresh) (stands : Stands start past given c) (batch : Batch) (w : World)
    (inTurn : Deed.strays (.fed batch :: past) = 0)
    (recalled : c.turn.outstanding = Deed.outstanding past) :
    Stands start (.fed batch :: past) given (c.feed batch w).1 := by
  have outstanding : c.turn.outstanding = true := by
    rw [recalled]
    by_contra stray
    simp [Deed.strays, stray] at inTurn
  cases stands with
  | begins => exact absurd (fresh.settled.symm.trans outstanding) Bool.false_ne_true
  | @due _ seen _ b _ current place results metric goesOn =>
    refine .due outstanding current place ?_ metric ?_
    · rw [Deed.reply, if_pos place.symm]
      rfl
    · intro worth agrees
      refine goesOn worth (fun n before => ?_)
      rw [agrees n before, Deed.worth_fed batch (by omega)]
  | ended settled exhausted done goesOn =>
    exact absurd (settled.symm.trans outstanding) Bool.false_ne_true

theorem gaveOut_itinerary {start c : Course β} {past : List (Deed α)} {given : List β}
    {made : β → α → Prop} (stands : Stands start past given c)
    (gave : Deed.GaveOut made given past) :
    Deed.GaveOut made (start.itinerary (Deed.worth start.progress.metric past)) past := by
  intro n before
  obtain ⟨result, pulled, same⟩ := gave n before
  refine ⟨result, pulled, ?_⟩
  cases stands with
  | begins => cases before
  | @due _ seen _ b outstanding current place results metric goesOn =>
    -- The itinerary goes on behind the outstanding item, whatever that turns out to be worth.
    have front : seen ++ [b] <+: start.itinerary (Deed.worth start.progress.metric past) := by
      rw [goesOn _ (fun _ _ => rfl), walk, Walk.resume_next current rfl]
      exact Walk.prefix_resume _ _ _
    obtain ⟨rest, whole⟩ := front
    rw [← whole, List.getElem?_append_left (by simp; omega)]
    exact same
  | ended settled exhausted done goesOn =>
    have finished : c.current? = none := by
      rw [current?, exhausted]
      rfl
    rw [goesOn _ (fun _ _ => rfl), walk_of_finished finished]
    exact same

end Course

/-- A sweep whose pulls do not fail gives out its itinerary if results come in turn: what an item
was worth is the best of what was fed last before the next pull. -/
theorem gaveOut_of_walks {σ α β : Type} [Source σ α] {course : σ → Course β}
    {made : σ → β → α → Prop} {Good Fit : σ → Prop} (follows : Follows course Good)
    (walks : Walks course made Fit) {start s : σ} {past : List (Deed α)} (good : Good start)
    (fit : Fit start) (fresh : (course start).Fresh) (sound : NeverFails start)
    (reached : After start past s) (inTurn : Deed.strays past = 0) :
    Deed.GaveOut (made s)
      ((course start).itinerary (Deed.worth (course start).progress.metric past)) past := by
  have stood : ∃ given, Course.Stands (course start) past given (course s) ∧
      Deed.GaveOut (made s) given past := by
    induction reached with
    | start => exact ⟨[], .begins, fun n before => nomatch before⟩
    | @pull past s before w ih =>
      -- The items given out before stay in their places; only the last place is new.
      obtain ⟨given, stands, gave⟩ := ih inTurn
      have pulls := (follows.pulled s w (follows.ran good before).1).2
      have kept := (walks.traced fit fresh.settled before).1
      obtain ⟨given', stands', front, next, result, same⟩ := Course.stands_pulled fresh stands
        pulls (walks.pulled s w kept).2 (fun fault => sound past s w fault before)
      have still := gave.imp (fun b a => walks.kept_pulled s w b a kept)
      refine ⟨given', stands', fun n within => ?_⟩
      rcases Nat.lt_succ_iff_lt_or_eq.mp within with earlier | rfl
      · rw [Deed.results_pulled earlier, front n earlier]
        exact still n earlier
      · rw [Deed.results_pulled_last]
        exact ⟨next, congrArg some result, same⟩
    | @feed past s before batch w ih =>
      have inTurn' : Deed.strays past = 0 := by
        simp only [Deed.strays] at inTurn
        omega
      obtain ⟨given, stands, gave⟩ := ih inTurn'
      obtain ⟨kept, ran⟩ := follows.ran good before
      have recalls := Course.recalls_of_ran fresh.settled fresh.empty ran
      have fit := (walks.traced fit fresh.settled before).1
      rw [(follows.fed s batch w kept).2]
      exact ⟨given, Course.stands_fed fresh stands batch w inTurn recalls.outstanding,
        gave.imp (fun b a => walks.kept_fed s batch w b a fit)⟩
  obtain ⟨given, stands, gave⟩ := stood
  exact Course.gaveOut_itinerary stands gave

end ServingSweep
