import ServingSweep.Proofs.Sweep.Trail
import ServingSweep.Proofs.Sweep.Turns

/-!
What a sweep gives out under calls in any order. `Walks` says how a sweep goes along its course,
pulls that fail included; from it follows that a sweep is `Thorough`: it leaves a trail in its rows
and ends after at most as many pulls as there are items.
-/

namespace ServingSweep
open Source
open scoped List

namespace Source.Deed
variable {α : Type}

def pulls : List (Deed α) → Nat
  | [] => 0
  | .pulled _ :: past => pulls past + 1
  | .fed _ :: past => pulls past

end Source.Deed

namespace Course
variable {α β : Type}

/-- What a pull comes to, past the outstanding item: the current one is given out, `made` into an
item of the sweep, unless there is none or the pull fails. -/
inductive Offers (made : β → α → Prop) (c : Course β) :
    Except Fault (Option α) → Course β → Prop where
  | ended {c' : Course β} (w : World) (finished : (c.advance w).1.current? = none)
      (rows : c'.rows = (c.advance w).1.rows) (settled : c'.turn.outstanding = false) :
      Offers made c (.ok none) c'
  | failed {c' : Course β} (w : World) (fault : Fault) (rows : c'.rows = (c.advance w).1.rows)
      (settled : c'.turn.outstanding = false) : Offers made c (.error fault) c'
  | gave {c' : Course β} {a : α} {b : β} (w : World) (same : made b a)
      (current : (c.advance w).1.current? = some b) (rows : c'.rows = (c.advance w).1.rows)
      (due : c'.turn.outstanding = true) : Offers made c (.ok (some a)) c'

/-- The items that a course has given out, the outstanding one last. -/
inductive Visited (rows : Rows β) : List β → Course β → Prop where
  | settled {given : List β} {c : Course β} (walked : rows.Walked given c.rows)
      (settled : c.turn.outstanding = false) : Visited rows given c
  | due {given : List β} {c : Course β} {b : β} (walked : rows.Walked given c.rows)
      (current : c.current? = some b) (due : c.turn.outstanding = true) :
      Visited rows (given ++ [b]) c

theorem walked_advance {rows : Rows β} {given : List β} {c : Course β}
    (visited : Visited rows given c) (w : World) : rows.Walked given (c.advance w).1.rows := by
  cases visited with
  | settled walked settled =>
    rw [advance_of_settled settled]
    exact walked
  | due walked current due =>
    have step := stepped_advance due current w
    rw [step.rows]
    exact walked.step current _

theorem rows_advance_of_nil {c : Course β} (exhausted : c.rows = .nil) (w : World) :
    (c.advance w).1.rows = .nil := by
  have empty : c.rows.isEmpty = true := Series.isEmpty_iff.mpr exhausted
  unfold advance step
  simp only [empty, if_true]
  split
  · exact exhausted
  · exact exhausted

theorem Visited.trail {rows : Rows β} {given : List β} {c : Course β}
    (visited : Visited rows given c) :
    ∃ ahead, Rows.Trail rows.lists given ahead ∧ ahead.length = c.rows.lists.length := by
  cases visited with
  | settled walked _ => exact (Rows.position_of_walked walked).trail
  | due walked current _ => exact (Rows.position_of_walked walked).trail_current current

end Course

/-! ### Sweeps along a course -/

section
variable {σ α β : Type} [Source σ α]

/-- A sweep goes along its course and takes its feeding, as long as it is `Good`. Whether an item is
`made` from one of the course shows in the sweep, and stays so. -/
structure Walks (course : σ → Course β) (made : σ → β → α → Prop) (Good : σ → Prop) : Prop where
  pulled : ∀ s w, Good s → Good (Source.pull s w).source ∧
    Course.Offers (made (Source.pull s w).source) (course s) (Source.pull s w).result
      (course (Source.pull s w).source)
  fed : ∀ s batch w, Good s → Good (Source.feed s batch w).1 ∧
    course (Source.feed s batch w).1 = ((course s).feed batch w).1
  kept_pulled : ∀ s w b a, Good s → made s b a → made (Source.pull s w).source b a
  kept_fed : ∀ s batch w b a, Good s → made s b a → made (Source.feed s batch w).1 b a

/-- Whatever is called, the items given out are a trail in the rows `lists`, in order; once the
sweep has ended it gave out the first item of every row, and it ends after one pull for each item
at the latest. -/
structure Thorough (course : σ → Course β) (made : σ → β → α → Prop) (lists : List (List β))
    (start : σ) : Prop where
  trail : ∀ past s, After start past s → ∃ given ahead,
    List.Forall₂ (made s) given (Deed.given past) ∧ given <+ lists.flatten ∧
      Rows.Trail lists given ahead ∧ ahead.length = (course s).rows.lists.length
  firsts : ∀ past s, After start past s → .pulled (.ok none) ∈ past →
    ∀ row ∈ lists, ∃ first, row.head? = some first ∧ ∃ a ∈ Deed.given past, made s first a
  ends : ∀ past s w, After start past s → lists.flatten.length ≤ Deed.pulls past →
    (Source.pull s w).result = .ok none

structure Traced (made : β → α → Prop) (rows : Rows β) (past : List (Deed α)) (c : Course β)
    (given : List β) : Prop where
  made : List.Forall₂ made given (Deed.given past)
  visited : Course.Visited rows given c
  exhausted : .pulled (.ok none) ∈ past → c.rows = .nil

theorem traced_offers {made : β → α → Prop} {rows : Rows β} {past : List (Deed α)}
    {c c' : Course β} {given : List β} {result : Except Fault (Option α)}
    (traced : Traced made rows past c given) (offers : Course.Offers made c result c') :
    ∃ given', Traced made rows (.pulled result :: past) c' given' := by
  have walked (w : World) := Course.walked_advance traced.visited w
  have exhausted (w : World) (was : .pulled (.ok none) ∈ past) : (c.advance w).1.rows = .nil :=
    Course.rows_advance_of_nil (traced.exhausted was) w
  cases offers with
  | ended w finished rows settled =>
    have visited : Course.Visited _ given c' := .settled (by rw [rows]; exact walked w) settled
    refine ⟨given, traced.made, visited, fun _ => ?_⟩
    rw [rows]
    exact Rows.eq_nil_of_current? finished
  | failed w fault rows settled =>
    have visited : Course.Visited _ given c' := .settled (by rw [rows]; exact walked w) settled
    refine ⟨given, traced.made, visited, fun ended => ?_⟩
    rcases List.mem_cons.mp ended with impossible | was
    · cases impossible
    · rw [rows]
      exact exhausted w was
  | @gave _ a b w same current rows due =>
    have left : c'.current? = some b := by rw [Course.current?, rows]; exact current
    have visited : Course.Visited _ (given ++ [b]) c' :=
      .due (by rw [rows]; exact walked w) left due
    refine ⟨given ++ [b], List.rel_append traced.made (.cons same .nil), visited, fun ended => ?_⟩
    -- An exhausted course has no current item to give out.
    rcases List.mem_cons.mp ended with impossible | was
    · cases impossible
    · rw [Course.current?, exhausted w was] at current
      cases current

variable {course : σ → Course β} {made : σ → β → α → Prop} {Good : σ → Prop}

theorem Walks.traced (walks : Walks course made Good) {start s : σ} {past : List (Deed α)}
    (good : Good start) (settled : (course start).turn.outstanding = false)
    (reached : After start past s) :
    Good s ∧ ∃ given, Traced (made s) (course start).rows past (course s) given := by
  induction reached with
  | start => exact ⟨good, [], .nil, .settled .start settled, fun ended => nomatch ended⟩
  | @pull past s _ w ih =>
    obtain ⟨good, given, traced⟩ := ih
    obtain ⟨kept, offers⟩ := walks.pulled s w good
    have still := traced.made.imp (fun b a same => walks.kept_pulled s w b a good same)
    exact ⟨kept, traced_offers ⟨still, traced.visited, traced.exhausted⟩ offers⟩
  | @feed past s _ batch w ih =>
    obtain ⟨good, given, traced⟩ := ih
    obtain ⟨kept, same⟩ := walks.fed s batch w good
    have still := traced.made.imp (fun b a same => walks.kept_fed s batch w b a good same)
    refine ⟨kept, given, still, ?_, ?_⟩
    · rw [same]
      cases traced.visited with
      | settled walked settled => exact .settled walked settled
      | due walked current due => exact .due walked current due
    · intro ended
      rw [same]
      rcases List.mem_cons.mp ended with impossible | was
      · cases impossible
      · exact traced.exhausted was

/-- Each pull gives out an item, until nothing is left. -/
theorem pulls_le_offers {made : β → α → Prop} {past : List (Deed α)} {c c' : Course β}
    {result : Except Fault (Option α)} (offers : Course.Offers made c result c')
    (sound : ∀ fault, result ≠ .error fault)
    (before : Deed.pulls past ≤ (Deed.given past).length ∨ c.rows = .nil) :
    Deed.pulls (.pulled result :: past) ≤ (Deed.given (.pulled result :: past)).length ∨
      c'.rows = .nil := by
  cases offers with
  | ended w finished rows settled =>
    right
    rw [rows]
    exact Rows.eq_nil_of_current? finished
  | failed w fault rows settled => exact absurd rfl (sound fault)
  | gave w same current rows due =>
    rcases before with fewer | exhausted
    · left
      simp only [Deed.pulls, Deed.given, List.length_append, List.length_singleton]
      omega
    · rw [Course.current?, Course.rows_advance_of_nil exhausted] at current
      cases current

theorem Walks.pulls_le (walks : Walks course made Good) {start s : σ} {past : List (Deed α)}
    (good : Good start) (sound : NeverFails start) (reached : After start past s) :
    Good s ∧ (Deed.pulls past ≤ (Deed.given past).length ∨ (course s).rows = .nil) := by
  induction reached with
  | start => exact ⟨good, .inl (Nat.le_refl _)⟩
  | @pull past s before w ih =>
    obtain ⟨good, fewer⟩ := ih
    obtain ⟨kept, offers⟩ := walks.pulled s w good
    exact ⟨kept, pulls_le_offers offers (fun fault => sound past s w fault before) fewer⟩
  | @feed past s _ batch w ih =>
    obtain ⟨good, fewer⟩ := ih
    obtain ⟨kept, same⟩ := walks.fed s batch w good
    refine ⟨kept, ?_⟩
    rw [same]
    exact fewer

theorem Walks.exists_trail (walks : Walks course made Good) {start s : σ} {past : List (Deed α)}
    (good : Good start) (settled : (course start).turn.outstanding = false)
    (reached : After start past s) :
    ∃ given ahead, List.Forall₂ (made s) given (Deed.given past) ∧
      given <+ (course start).rows.lists.flatten ∧
      Rows.Trail (course start).rows.lists given ahead ∧
      ahead.length = (course s).rows.lists.length := by
  obtain ⟨-, given, traced⟩ := walks.traced good settled reached
  obtain ⟨ahead, trail, length⟩ := traced.visited.trail
  exact ⟨given, ahead, traced.made, trail.sublist, trail, length⟩

/-- A pull that gives something out is not preceded by as many pulls as there are items. -/
theorem Walks.pulls_lt (walks : Walks course made Good) {start s : σ} {past : List (Deed α)}
    (good : Good start) (settled : (course start).turn.outstanding = false)
    (sound : NeverFails start) (reached : After start past s) {w : World} {a : α}
    (result : (Source.pull s w).result = .ok (some a)) :
    Deed.pulls past < (course start).rows.lists.flatten.length := by
  have further := reached.pull w
  rw [result] at further
  obtain ⟨given, ahead, made, sublist, -, -⟩ := walks.exists_trail good settled further
  have most : given.length ≤ (course start).rows.lists.flatten.length := sublist.length_le
  have length : given.length = (Deed.given (.pulled (.ok (some a)) :: past)).length :=
    made.length_eq
  rcases (walks.pulls_le good sound further).2 with fewer | exhausted
  · simp only [Deed.pulls] at fewer
    omega
  · have offers := (walks.pulled s w (walks.traced good settled reached).1).2
    rw [result] at offers
    cases offers with
    | gave w same current rows due =>
      rw [exhausted] at rows
      rw [Course.current?, ← rows] at current
      cases current

theorem Walks.thorough (walks : Walks course made Good) {start : σ} (good : Good start)
    (settled : (course start).turn.outstanding = false) (sound : NeverFails start)
    {lists : List (List β)} (rows : (course start).rows.lists = lists) :
    Thorough course made lists start := by
  subst rows
  refine ⟨fun past s reached => walks.exists_trail good settled reached, ?_, ?_⟩
  · intro past s reached ended row member
    obtain ⟨-, given, traced⟩ := walks.traced good settled reached
    obtain ⟨ahead, trail, length⟩ := traced.visited.trail
    rw [traced.exhausted ended] at length
    obtain rfl : ahead = [] := List.eq_nil_of_length_eq_zero length
    obtain ⟨first, seen, head⟩ := trail.firsts row member
    exact ⟨first, head, exists_of_mem_left traced.made seen⟩
  · intro past s w reached bound
    cases result : (Source.pull s w).result with
    | error fault => exact absurd result (sound past s w fault reached)
    | ok given =>
      cases given with
      | none => rfl
      | some a =>
        have fewer := walks.pulls_lt good settled sound reached result
        omega

end
end ServingSweep
