import Mathlib.Data.List.Induction
import Mathlib.Data.List.Nodup
import Std.Data.String.ToNat
import ServingSweep.Names

/-!
Names over a whole history of calls. The registry after a history lists, base by base, the
overrides it asked for in order of first use, and a name depends on that list alone: `nameAll_eq`
gives every call its `title` in the whole history, and `title_inj` tells the titles apart.
-/

namespace ServingSweep
namespace Names

/-! ### Names as text -/

/-- A name is a base and a tag; a tag without an underscore begins after the last one. -/
theorem tagged_inj {base other tag tag' : String} (own : '_' ∉ tag.toList)
    (foreign : '_' ∉ tag'.toList) (same : base ++ "_config_" ++ tag = other ++ "_config_" ++ tag') :
    base = other ∧ tag = tag' := by
  have lists := congrArg String.toList same
  simp only [String.toList_append] at lists
  have split : ∀ (front back : List Char),
      front ++ "_config_".toList ++ back = (front ++ "_config".toList) ++ '_' :: back := by
    intro front back
    rw [show "_config_".toList = "_config".toList ++ ['_'] from rfl]
    simp only [List.append_assoc, List.cons_append, List.nil_append]
  rw [split, split] at lists
  have parts : base.toList ++ "_config".toList = other.toList ++ "_config".toList ∧
      tag.toList = tag'.toList := by
    rcases List.append_eq_append_iff.mp lists with ⟨gap, longer, rest⟩ | ⟨gap, longer, rest⟩
    · cases gap with
      | nil => exact ⟨by simpa using longer.symm, (List.cons.inj rest).2⟩
      | cons c gap =>
        have inside : '_' ∈ tag.toList := by rw [(List.cons.inj rest).2]; simp
        exact absurd inside own
    · cases gap with
      | nil => exact ⟨by simpa using longer, (List.cons.inj rest).2.symm⟩
      | cons c gap =>
        have inside : '_' ∈ tag'.toList := by rw [(List.cons.inj rest).2]; simp
        exact absurd inside foreign
  exact ⟨String.toList_inj.mp (List.append_cancel_right parts.1), String.toList_inj.mp parts.2⟩

theorem underscore_notMem_repr (n : Nat) : '_' ∉ (Nat.repr n).toList := by
  rw [Nat.toList_repr]
  exact Nat.underscore_not_in_toDigits

theorem numbered_inj {base other : String} {m n : Nat} (same : numbered base m = numbered other n) :
    base = other ∧ m = n := by
  obtain ⟨bases, digits⟩ := tagged_inj (underscore_notMem_repr m) (underscore_notMem_repr n) same
  exact ⟨bases, Nat.repr_injective digits⟩

theorem baseline_eq (base : String) : baseline base = base ++ "_config_" ++ "default" := by
  rw [baseline, String.append_assoc]
  rfl

theorem baseline_inj {base other : String} (same : baseline base = baseline other) :
    base = other := by
  rw [baseline_eq, baseline_eq] at same
  exact (tagged_inj (by decide) (by decide) same).1

theorem baseline_ne_numbered (base other : String) (n : Nat) :
    baseline base ≠ numbered other n := by
  intro same
  rw [baseline_eq] at same
  obtain ⟨-, digits⟩ := tagged_inj (by decide) (underscore_notMem_repr n) same
  have letter : 'd' ∈ Nat.toDigits 10 n := by
    rw [← Nat.toList_repr, ← digits]
    decide
  have digit := Nat.isDigit_of_mem_toDigits (by decide) (by decide) letter
  exact absurd digit (by decide)

/-! ### Histories of calls -/

/-- A base and the overrides to name for it. -/
abbrev Call := String × Overrides

/-- The names given to a list of calls in turn, and the registry after them. Whoever holds the
registry, all calls come in one line. -/
def nameAll (names : Names) : List Call → List String × Names
  | [] => ([], names)
  | (base, o) :: rest =>
    let (given, named) := names.name base o
    let (others, last) := named.nameAll rest
    (given :: others, last)

/-- The overrides that calls ask for with a base; the base configuration itself is none. -/
def asked (base : String) (calls : List Call) : List Overrides :=
  (calls.filter (fun call => call.1 == base && !call.2.isBaseline)).map Prod.snd

/-- What calls ask for with a base, each where it is first asked for. -/
def firstUses (base : String) (calls : List Call) : List Overrides := (asked base calls).eraseDups

def title (calls : List Call) (call : Call) : String :=
  if call.2.isBaseline then baseline call.1
  else numbered call.1 ((firstUses call.1 calls).idxOf call.2)

theorem mem_firstUses {base : String} {calls : List Call} {o : Overrides} :
    o ∈ firstUses base calls ↔ (base, o) ∈ calls ∧ o.isBaseline = false := by
  simp only [firstUses, asked, List.mem_eraseDups, List.mem_map, List.mem_filter,
    Bool.and_eq_true, beq_iff_eq, Bool.not_eq_true']
  constructor
  · rintro ⟨⟨_, _⟩, ⟨mem, rfl, fresh⟩, rfl⟩
    exact ⟨mem, fresh⟩
  · rintro ⟨mem, fresh⟩
    exact ⟨(base, o), ⟨mem, rfl, fresh⟩, rfl⟩

theorem asked_append (base : String) (calls more : List Call) :
    asked base (calls ++ more) = asked base calls ++ asked base more := by
  rw [asked, List.filter_append, List.map_append]
  rfl

theorem firstUses_append (base : String) (calls more : List Call) :
    ∃ others, firstUses base (calls ++ more) = firstUses base calls ++ others := by
  rw [firstUses, asked_append, List.eraseDups_append]
  exact ⟨_, rfl⟩

theorem firstUses_other {base : String} {call : Call} (calls : List Call)
    (other : call.1 ≠ base ∨ call.2.isBaseline = true) :
    firstUses base (calls ++ [call]) = firstUses base calls := by
  have nothing : asked base [call] = [] := by
    rcases other with foreign | plain
    · simp [asked, foreign]
    · simp [asked, plain]
  rw [firstUses, asked_append, nothing, List.append_nil]
  rfl

theorem firstUses_own {base : String} {o : Overrides} (calls : List Call)
    (changed : o.isBaseline = false) :
    firstUses base (calls ++ [(base, o)]) =
      if o ∈ firstUses base calls then firstUses base calls else firstUses base calls ++ [o] := by
  have own : asked base [(base, o)] = [o] := by simp [asked, changed]
  rw [firstUses, asked_append, own, List.eraseDups_append]
  by_cases known : o ∈ asked base calls
  · have seen : o ∈ firstUses base calls := List.mem_eraseDups.mpr known
    rw [if_pos seen, List.removeAll, List.filter_cons_of_neg (by simpa using known)]
    exact List.append_nil _
  · have unseen : o ∉ firstUses base calls := fun seen => known (List.mem_eraseDups.mp seen)
    rw [if_neg unseen, List.removeAll, List.filter_cons_of_pos (by simpa using known)]
    rfl

theorem nodup_firstUses (base : String) (calls : List Call) : (firstUses base calls).Nodup := by
  induction calls using List.reverseRecOn with
  | nil => exact List.nodup_nil
  | append_singleton calls call ih =>
    by_cases own : call.1 = base ∧ call.2.isBaseline = false
    · obtain ⟨rfl, changed⟩ := own
      rw [firstUses_own calls changed]
      split
      · exact ih
      · next new => simpa using ih.concat new
    · have other : call.1 ≠ base ∨ call.2.isBaseline = true := by
        rw [not_and_or, Bool.not_eq_false] at own
        exact own
      rw [firstUses_other calls other]
      exact ih

/-! ### The registry of a history -/

def Recorded (names : Names) (past : List Call) : Prop :=
  ∀ base, names.listed base = firstUses base past

theorem recorded_empty : Recorded {} [] := fun _ => rfl

/-- Overrides have the place of their first use. -/
theorem place?_eq {o : Overrides} {latest : List Overrides} (nodup : latest.reverse.Nodup) :
    place? o latest = if o ∈ latest.reverse then some (latest.reverse.idxOf o) else none := by
  induction latest with
  | nil => rfl
  | cons head older ih =>
    rw [List.reverse_cons] at nodup ⊢
    obtain ⟨nodup, -, apart⟩ := List.nodup_append.mp nodup
    have fresh : head ∉ older.reverse := fun mem => apart head mem head (by simp) rfl
    rw [place?, List.idxOf_append]
    by_cases same : head = o
    · subst same
      rw [if_pos ((Value.sameEntries_iff head head).mpr rfl), if_neg fresh]
      simp
    · rw [if_neg (fun equal => same ((Value.sameEntries_iff head o).mp equal)), ih nodup]
      by_cases mem : o ∈ older.reverse
      · rw [if_pos mem, if_pos mem, if_pos (List.mem_append_left _ mem)]
      · rw [if_neg mem, if_neg (by simpa [Ne.symm same] using mem)]

theorem place?_eq_none_iff {o : Overrides} {latest : List Overrides} :
    place? o latest = none ↔ o ∉ latest := by
  induction latest with
  | nil => simp [place?]
  | cons head older ih =>
    rw [place?, List.mem_cons, not_or, ← ih]
    by_cases same : head = o
    · simp [same, Value.sameEntries_iff]
    · simp [same, Ne.symm same, Value.sameEntries_iff]

/-- Overrides are listed for a base when they are named for it first, and nothing else is. -/
theorem listed_name (names : Names) (base : String) (o : Overrides) (other : String) :
    (names.name base o).2.listed other =
      if other = base ∧ o ≠ [] ∧ o ∉ names.listed base then names.listed other ++ [o]
      else names.listed other := by
  by_cases own : other = base
  · subst own
    have listed : o ∈ names.listed other ↔ o ∈ (names.known other).latest := List.mem_reverse
    by_cases plain : o = []
    · rw [plain, name_baseline, if_neg (fun gains => gains.2.1 rfl)]
    · have changed : ¬ o.isBaseline = true := fun empty => plain (List.isEmpty_iff.mp empty)
      unfold name
      rw [if_neg changed]
      dsimp only
      split
      · next n place =>
        have known : o ∈ (names.known other).latest := by
          by_contra new
          rw [place?_eq_none_iff.mpr new] at place
          cases place
        rw [if_neg (fun gains => gains.2.2 (listed.mpr known))]
      · next place =>
        have new := mt listed.mp (place?_eq_none_iff.mp place)
        rw [listed_insert, if_pos rfl, if_pos ⟨rfl, plain, new⟩, Journal.toList_push]
        rfl
  · rw [listed_name_of_ne o own, if_neg (fun gains => own gains.1)]

section Recorded
variable {names : Names} {past : List Call} {base : String} {o : Overrides}

theorem place?_recorded (recorded : Recorded names past) :
    place? o (names.known base).latest =
      if o ∈ firstUses base past then some ((firstUses base past).idxOf o) else none := by
  have nodup := nodup_firstUses base past
  rw [← recorded base] at nodup ⊢
  exact place?_eq nodup

theorem name_of_known (recorded : Recorded names past) (known : o ∈ firstUses base past) :
    names.name base o = (numbered base ((firstUses base past).idxOf o), names) := by
  have changed := (mem_firstUses.mp known).2
  have place := @place?_recorded names past base o recorded
  rw [if_pos known] at place
  simp only [name, changed, place, Bool.false_eq_true, if_false]

theorem name_of_new (recorded : Recorded names past) (changed : o.isBaseline = false)
    (new : o ∉ firstUses base past) :
    names.name base o = (numbered base (firstUses base past).length,
      ⟨names.issued.insert base ((names.known base).push o)⟩) := by
  have place := @place?_recorded names past base o recorded
  rw [if_neg new] at place
  have count : (names.known base).length = (firstUses base past).length := by
    rw [← Journal.length_toList]
    exact congrArg List.length (recorded base)
  simp only [name, changed, place, count, Bool.false_eq_true, if_false]

/-- A call joins the history, and its name is told from the history with it. -/
theorem recorded_name (recorded : Recorded names past) (call : Call) :
    (names.name call.1 call.2).1 = title (past ++ [call]) call ∧
      Recorded (names.name call.1 call.2).2 (past ++ [call]) := by
  obtain ⟨base, o⟩ := call
  by_cases plain : o.isBaseline = true
  · have same : names.name base o = (baseline base, names) := by rw [name, if_pos plain]
    rw [same, title, if_pos plain]
    refine ⟨rfl, ?_⟩
    intro other
    rw [firstUses_other past (.inr plain)]
    exact recorded other
  · have changed : o.isBaseline = false := Bool.eq_false_iff.mpr plain
    have own := @firstUses_own base o past changed
    have others : ∀ other, other ≠ base →
        firstUses other (past ++ [(base, o)]) = firstUses other past :=
      fun other different => firstUses_other past (.inl (Ne.symm different))
    rw [title, if_neg plain]
    by_cases known : o ∈ firstUses base past
    · rw [if_pos known] at own
      rw [name_of_known recorded known, own]
      refine ⟨rfl, ?_⟩
      intro other
      by_cases same : other = base
      · rw [same, own]
        exact recorded base
      · rw [others other same]
        exact recorded other
    · rw [if_neg known] at own
      rw [name_of_new recorded changed known, own, List.idxOf_append, if_neg known]
      refine ⟨by simp, ?_⟩
      intro other
      rw [listed_insert, Journal.toList_push]
      by_cases same : other = base
      · rw [if_pos same, same, own, ← recorded base]
        rfl
      · rw [if_neg same, others other same]
        exact recorded other

/-- A title stays as the history goes on. -/
theorem title_append {call : Call} (mem : call ∈ past) (more : List Call) :
    title (past ++ more) call = title past call := by
  unfold title
  split
  · rfl
  · next changed =>
    obtain ⟨others, grown⟩ := firstUses_append call.1 past more
    have known : call.2 ∈ firstUses call.1 past :=
      mem_firstUses.mpr ⟨mem, Bool.eq_false_iff.mpr changed⟩
    rw [grown, List.idxOf_append, if_pos known]

/-- All calls get the titles of the whole history. -/
theorem nameAll_eq (recorded : Recorded names past) (calls : List Call) :
    (names.nameAll calls).1 = calls.map (title (past ++ calls)) ∧
      Recorded (names.nameAll calls).2 (past ++ calls) := by
  induction calls generalizing names past with
  | nil => exact ⟨rfl, by rw [List.append_nil]; exact recorded⟩
  | cons call rest ih =>
    obtain ⟨given, kept⟩ := recorded_name recorded call
    obtain ⟨others, last⟩ := ih kept
    rw [List.append_assoc, List.singleton_append] at others last
    refine ⟨?_, last⟩
    have mem : call ∈ past ++ [call] := by simp
    have stays := title_append mem rest
    rw [List.append_assoc, List.singleton_append] at stays
    rw [List.map_cons, stays, ← given, ← others]
    rfl

theorem title_firstUses {calls : List Call} {k : Nat}
    (at_k : (firstUses base calls)[k]? = some o) : title calls (base, o) = numbered base k := by
  obtain ⟨k_lt, found⟩ := List.getElem?_eq_some_iff.mp at_k
  have changed : o.isBaseline = false := (mem_firstUses.mp (List.mem_of_getElem? at_k)).2
  have place : (firstUses base calls).idxOf o = k := by
    rw [← found]
    exact (nodup_firstUses base calls).idxOf_getElem k k_lt
  rw [title, if_neg (Bool.eq_false_iff.mp changed), place]

end Recorded

theorem title_inj {calls : List Call} {call other : Call} (mem : call ∈ calls)
    (mem' : other ∈ calls) : title calls call = title calls other ↔ call = other := by
  refine ⟨?_, fun same => by rw [same]⟩
  obtain ⟨base, o⟩ := call
  obtain ⟨base', o'⟩ := other
  intro same
  cases plain : o.isBaseline with
  | true =>
    cases plain' : o'.isBaseline with
    | true =>
      simp only [title, plain, plain', if_true] at same
      rw [baseline_inj same, List.isEmpty_iff.mp plain, List.isEmpty_iff.mp plain']
    | false =>
      simp only [title, plain, plain', if_true, Bool.false_eq_true, if_false] at same
      exact absurd same (baseline_ne_numbered _ _ _)
  | false =>
    cases plain' : o'.isBaseline with
    | true =>
      simp only [title, plain, plain', if_true, Bool.false_eq_true, if_false] at same
      exact absurd same.symm (baseline_ne_numbered _ _ _)
    | false =>
      simp only [title, plain, plain', Bool.false_eq_true, if_false] at same
      obtain ⟨rfl, places⟩ := numbered_inj same
      have known : o ∈ firstUses base calls := mem_firstUses.mpr ⟨mem, plain⟩
      rw [(List.idxOf_inj known).mp places]

/-- In any history of calls two get one name iff they ask for the same of the same base. The base
configuration has a name without a number and takes none; the other overrides of a base have the
numbers from 0 on in order of first use. -/
theorem named_iff_same (calls : List Call) :
    let named := ({} : Names).nameAll calls
    named.1.length = calls.length ∧
    (∀ i j : Nat, i < calls.length → j < calls.length →
      (named.1[i]? = named.1[j]? ↔ calls[i]? = calls[j]?)) ∧
    (∀ (names : Names) (base : String), names.name base [] = (base ++ "_config_default", names)) ∧
    ∀ base, named.2.listed base = firstUses base calls ∧ (firstUses base calls).Nodup ∧
      (∀ o, o ∈ firstUses base calls ↔ (base, o) ∈ calls ∧ o ≠ []) ∧
      ∀ (k : Nat) (o : Overrides), (firstUses base calls)[k]? = some o →
        ∀ i : Nat, calls[i]? = some (base, o) →
          named.1[i]? = some (base ++ "_config_" ++ Nat.repr k) := by
  intro named
  obtain ⟨given, last⟩ := nameAll_eq recorded_empty calls
  rw [List.nil_append] at given last
  have titled : ∀ (i : Nat) (call : Call), calls[i]? = some call →
      named.1[i]? = some (title calls call) := by
    intro i call at_i
    rw [given, List.getElem?_map, at_i]
    rfl
  refine ⟨by rw [given, List.length_map], ?_, name_baseline, ?_⟩
  · intro i j i_lt j_lt
    have at_i := List.getElem?_eq_getElem i_lt
    have at_j := List.getElem?_eq_getElem j_lt
    rw [titled i _ at_i, titled j _ at_j, at_i, at_j, Option.some_inj, Option.some_inj]
    exact title_inj (List.getElem_mem i_lt) (List.getElem_mem j_lt)
  · intro base
    refine ⟨last base, nodup_firstUses base calls, ?_, ?_⟩
    · intro o
      rw [mem_firstUses, ← List.isEmpty_eq_false_iff]
      rfl
    · intro k o at_k i at_i
      rw [titled i _ at_i, title_firstUses at_k]
      rfl

/-- Bases that look like names, and overrides that differ in the sign of a zero. -/
def confusable : List Call :=
  let zero : Overrides := [("rate", .float ⟨0⟩)]
  let negative : Overrides := [("rate", .float ⟨0x8000000000000000⟩)]
  [("a", zero), ("a", []), ("a_config_0", zero), ("a", negative), ("a_config_default", negative),
    ("a", zero), ("a_config_0", [])]

theorem named_iff_same_confusable :
    0 < confusable.length ∧ 3 < confusable.length ∧
    (let named := ({} : Names).nameAll confusable
    (named.1[0]? = named.1[3]? ↔ confusable[0]? = confusable[3]?) ∧
    named.1 = ["a_config_0", "a_config_default", "a_config_0_config_0", "a_config_1",
      "a_config_default_config_0", "a_config_0", "a_config_0_config_default"] ∧
    (firstUses "a" confusable)[1]? = some [("rate", .float ⟨0x8000000000000000⟩)] ∧
    named.1[3]? = some ("a" ++ "_config_" ++ Nat.repr 1)) :=
  ⟨by decide, by decide, (named_iff_same confusable).2.1 0 3 (by decide) (by decide),
    by decide +kernel, rfl, ((named_iff_same confusable).2.2.2 "a").2.2.2 1 _ rfl 3 rfl⟩

end Names
end ServingSweep
