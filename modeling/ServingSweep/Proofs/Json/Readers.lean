import ServingSweep.Json.Record
import ServingSweep.Proofs.Json.Text
import ServingSweep.Proofs.Keyed
import ServingSweep.Proofs.Related

/-!
What readers make of written values. The members of an object may come in any order: `Alike` values
differ in nothing else. A reader `Keeps` a value under a condition when it gives the value back from
all that is alike to its JSON exactly under that condition, and the condition of a list, a map or an
option is that of its parts.
-/

namespace ServingSweep.Json
variable {α : Type} {as bs : List Json} {ms : List (String × Json)} {a b : Json} {depth : Nat}

/-- The same value, with the members of its objects in any order. -/
inductive Alike : Json → Json → Prop
  | same (j : Json) : Alike j j
  | array {as bs : List Json} (items : List.Forall₂ Alike as bs) : Alike (.array as) (.array bs)
  | object {ms ns os : List (String × Json)} (keys : ms.map Prod.fst = ns.map Prod.fst)
      (values : List.Forall₂ Alike (ms.map Prod.snd) (ns.map Prod.snd)) (order : ns.Perm os) :
      Alike (.object ms) (.object os)

theorem Alike.of_perm {os : List (String × Json)} (order : ms.Perm os) :
    Alike (.object ms) (.object os) :=
  .object rfl (List.forall₂_same.mpr (fun _ _ => .same _)) order

theorem Alike.of_array (alike : Alike (.array as) b) :
    ∃ bs, b = .array bs ∧ List.Forall₂ Alike as bs := by
  cases alike with
  | same => exact ⟨as, rfl, List.forall₂_same.mpr (fun _ _ => .same _)⟩
  | array items => exact ⟨_, rfl, items⟩

def Beside (m n : String × Json) : Prop := m.1 = n.1 ∧ Alike m.2 n.2

theorem forall₂_beside {ns : List (String × Json)} (keys : ms.map Prod.fst = ns.map Prod.fst)
    (values : List.Forall₂ Alike (ms.map Prod.snd) (ns.map Prod.snd)) :
    List.Forall₂ Beside ms ns := by
  induction ms generalizing ns with
  | nil =>
    rw [List.map_eq_nil_iff.mp keys.symm]
    exact .nil
  | cons m ms ih =>
    cases ns with
    | nil => cases keys
    | cons n ns =>
      injection keys with key keys
      cases values with
      | cons value values => exact .cons ⟨key, value⟩ (ih keys values)

theorem keys_of_beside {ns : List (String × Json)} (members : List.Forall₂ Beside ms ns) :
    ns.map Prod.fst = ms.map Prod.fst := by
  induction members with
  | nil => rfl
  | cons first _ ih => exact congrArg₂ List.cons first.1.symm ih

theorem Alike.of_object (alike : Alike (.object ms) b) : ∃ ns os, b = .object os ∧
    List.Forall₂ Beside ms ns ∧ ns.Perm os := by
  cases alike with
  | same => exact ⟨ms, ms, rfl, List.forall₂_same.mpr (fun _ _ => ⟨rfl, .same _⟩), .refl _⟩
  | object keys values order => exact ⟨_, _, rfl, forall₂_beside keys values, order⟩

theorem Alike.null_iff (alike : Alike a b) : b = .null ↔ a = .null := by
  cases alike with
  | same => exact Iff.rfl
  | array => exact ⟨nofun, nofun⟩
  | object => exact ⟨nofun, nofun⟩

namespace Reader

/-- From everything alike to the value, the reader gives back `a` exactly under the condition. -/
def Keeps (read : Reader α) (depth : Nat) (a : α) (value : Json) (condition : Prop) : Prop :=
  ∀ written, Alike value written → (read depth written.document = some a ↔ condition)

variable {read : Reader α} {toJson : α → Json}

theorem Keeps.of_true {x : α} {condition : Prop} (keeps : read.Keeps depth x a condition)
    (held : condition) : read.Keeps depth x a True :=
  fun written alike => (keeps written alike).trans (iff_true_intro held)

/-! ### Texts and numbers -/

theorem keeps_text (s : String) : text.Keeps depth s (.text s) True := by
  intro written alike
  cases alike
  exact iff_of_true rfl trivial

theorem keeps_bool (b : Bool) : bool.Keeps depth b (.bool b) True := by
  intro written alike
  cases alike
  exact iff_of_true rfl trivial

theorem keeps_of_text {s : String} {x : α} (f : String → Option α) (reads : f s = some x) :
    Keeps (fun depth d => (text depth d).bind f) depth x (.text s) True := by
  intro written alike
  cases alike
  exact iff_of_true reads trivial

theorem keeps_oneOf {names : List (String × α)} {name : String} {x : α}
    (listed : names.lookup name = some x) : (oneOf names).Keeps depth x (.text name) True := by
  intro written alike
  cases alike
  exact iff_of_true listed trivial

end Reader

theorem Number.ofNumeral?_integer (n : WideInt) :
    Number.ofNumeral? (Number.integer n).numeral = some (.integer n) := by
  rw [Number.ofNumeral?, Number.integer?_integer, Option.bind_some, Number.ofInt?,
    dif_pos ⟨n.lower, n.upper⟩]

theorem Number.ofNumeral?_real (x : Finite) : Number.ofNumeral? (Number.real x).numeral =
    (Number.real x).numeral.real?.bind Number.ofReal? := by
  rw [Number.ofNumeral?, Number.integer?_real]
  rfl

namespace Reader
variable {read : Reader α} {toJson : α → Json}

theorem integer?_numeral (n : WideInt) : integer? (Number.integer n).numeral = some n.val := by
  rw [integer?, Number.ofNumeral?_integer]

theorem keeps_natural {limit n : Nat} (fits : n < limit) (wide : n < 0x10000000000000000) :
    (natural limit).Keeps depth n (Json.count n) True := by
  have held : -0x8000000000000000 ≤ (n : Int) ∧ (n : Int) < 0x10000000000000000 := by omega
  have value : Json.count n = .number (.integer ⟨n, held.1, held.2⟩) := by
    rw [Json.count, Number.ofInt?, dif_pos held]
    rfl
  rw [value]
  intro written alike
  cases alike
  refine iff_of_true ?_ trivial
  simp only [document, natural, integer?_numeral]
  rw [if_pos (by omega)]
  rfl

theorem keeps_word32 (n : UInt32) : word32.Keeps depth n (Json.word n) True := by
  intro written alike
  cases alike
  refine iff_of_true ?_ trivial
  have fits := n.toNat_lt
  simp only [Json.word, document, word32, natural, integer?_numeral]
  rw [if_pos (by omega)]
  exact congrArg some UInt32.ofNat_toNat

/-! ### Options -/

theorem nullable_of_ne_null {written : Json} (other : written ≠ .null) :
    read.nullable depth written.document = (read depth written.document).map some := by
  cases written <;> first
    | exact absurd rfl other
    | rfl

theorem keeps_nullable (p : α → Prop) {o : Option α} (shown : ∀ x, toJson x ≠ .null)
    (each : ∀ x ∈ o, read.Keeps depth x (toJson x) (p x)) :
    read.nullable.Keeps depth o (Json.ofOption toJson o) (∀ x ∈ o, p x) := by
  intro written alike
  cases o with
  | none =>
    cases alike
    exact iff_of_true rfl nofun
  | some x =>
    rw [nullable_of_ne_null (fun null => shown x (alike.null_iff.mp null)), Option.map_eq_some_iff]
    constructor
    · rintro ⟨y, found, same⟩ z member
      cases member
      cases same
      exact (each x rfl written alike).mp found
    · intro held
      exact ⟨x, (each x rfl written alike).mpr (held x rfl), rfl⟩

/-! ### Lists and maps -/

theorem mapM_eq_some_iff {β γ : Type} {f : β → Option γ} {xs : List β} {ys : List γ} :
    xs.mapM f = some ys ↔ List.Forall₂ (fun x y => f x = some y) xs ys := by
  induction xs generalizing ys with
  | nil =>
    rw [List.mapM_nil, List.forall₂_nil_left_iff]
    exact ⟨fun same => (Option.some.inj same).symm, fun same => congrArg some same.symm⟩
  | cons x xs ih =>
    rw [List.mapM_cons, List.forall₂_cons_left_iff]
    simp only [Option.bind_eq_bind, Option.bind_eq_some_iff, Option.pure_def, Option.some.injEq, ih]
    constructor
    · rintro ⟨y, first, ys, further, rfl⟩
      exact ⟨y, ys, first, further, rfl⟩
    · rintro ⟨y, ys, first, further, rfl⟩
      exact ⟨y, first, ys, further, rfl⟩

/-- What is read of each written part decides what is read of all. -/
theorem forall₂_reads {β γ : Type} {R : β → γ → Prop} {Q : γ → β → Prop} {q : β → Prop}
    {xs : List β} {ys : List γ} (written : List.Forall₂ R xs ys)
    (each : ∀ x ∈ xs, ∀ y, R x y → (Q y x ↔ q x)) : List.Forall₂ Q ys xs ↔ ∀ x ∈ xs, q x := by
  induction written with
  | nil => exact iff_of_true .nil (fun _ member => nomatch member)
  | cons first _ ih =>
    rw [List.forall₂_cons, List.forall_mem_cons, each _ List.mem_cons_self _ first,
      ih (fun x member => each x (List.mem_cons_of_mem _ member))]

theorem keeps_list (p : α → Prop) {xs : List α} (each : ∀ x ∈ xs, read.Keeps depth x (toJson x) (p x)) :
    (list read).Keeps (depth + 1) xs (.array (xs.map toJson)) (∀ x ∈ xs, p x) := by
  intro written alike
  obtain ⟨bs, rfl, items⟩ := alike.of_array
  rw [List.forall₂_map_left_iff] at items
  rw [document, documents_eq, list, mapM_eq_some_iff, List.forall₂_map_left_iff]
  exact forall₂_reads items (fun x member b alike => each x member b alike)

/-- The entries of a map are read in any order; of the entries read, the map is made again. -/
theorem ofList_eq_some_iff {β : Type} {f : β → Option (String × α)} {key : β → String}
    (keyed : ∀ b e, f b = some e → e.1 = key b) {ns os : List β} (order : ns.Perm os)
    {m : Keyed α} (ordered : m.Ordered) (keys : ns.map key = m.keys) :
    (os.mapM f).map Keyed.ofList = some m ↔ List.Forall₂ (fun n e => f n = some e) ns m := by
  have keysOf {bs : List β} {l : Keyed α} (read : List.Forall₂ (fun b e => f b = some e) bs l) :
      l.keys = bs.map key := by
    induction read with
    | nil => rfl
    | cons first _ ih => exact congrArg₂ List.cons (keyed _ _ first) ih
  constructor
  · intro found
    obtain ⟨r, read, made⟩ := Option.map_eq_some_iff.mp found
    obtain ⟨s, again, perm⟩ := List.perm_comp_forall₂ order (mapM_eq_some_iff.mp read)
    -- Brought into the order of `ns`, the entries that were read have the keys of the map.
    have same : Keyed.keys s = m.keys := (keysOf again).trans keys
    have sorted : Keyed.Ordered s := (Keyed.ordered_congr same).mpr ordered
    rw [← made, Keyed.ofList_of_perm sorted perm.symm]
    exact again
  · intro read
    obtain ⟨r, again, perm⟩ := List.perm_comp_forall₂ order.symm read
    rw [mapM_eq_some_iff.mpr again, Option.map_some, Keyed.ofList_of_perm ordered perm]

theorem member_eq_some_iff {key : String} {d : Document} {e : String × α} :
    keyed.member read depth (some key, d) = some e ↔ key = e.1 ∧ read depth d = some e.2 := by
  rw [keyed.member, Option.bind_some, Option.map_eq_some_iff]
  constructor
  · rintro ⟨x, found, rfl⟩
    exact ⟨rfl, found⟩
  · rintro ⟨rfl, found⟩
    exact ⟨e.2, found, rfl⟩

theorem keeps_keyed (p : α → Prop) {m : Keyed α} (ordered : m.Ordered)
    (each : ∀ e ∈ m, read.Keeps depth e.2 (toJson e.2) (p e.2)) :
    (keyed read).Keeps (depth + 1) m (Json.ofKeyed toJson m) (∀ e ∈ m, p e.2) := by
  intro written alike
  obtain ⟨ns, os, rfl, members, order⟩ := alike.of_object
  have keys : ns.map Prod.fst = m.keys := by
    rw [keys_of_beside members, List.map_map]
    rfl
  rw [List.forall₂_map_left_iff] at members
  let f (n : String × Json) := keyed.member read depth (some n.1, n.2.document)
  have named (n : String × Json) (e : String × α) (found : f n = some e) : e.1 = n.1 :=
    (member_eq_some_iff.mp found).1.symm
  rw [document, documentMembers_eq, keyed, List.mapM_map]
  change (os.mapM f).map Keyed.ofList = some m ↔ _
  rw [ofList_eq_some_iff named order ordered keys]
  refine forall₂_reads members (fun e member n beside => ?_)
  rw [member_eq_some_iff, and_iff_right beside.1.symm]
  exact each e member n.2 beside.2

theorem exists_read_of_keyed {m l : Keyed α} {written : Json}
    (alike : Alike (Json.ofKeyed toJson m) written)
    (found : keyed read (depth + 1) written.document = some l) :
    ∀ e ∈ m, ∃ other x, Alike (toJson e.2) other ∧ read depth other.document = some x := by
  intro e member
  obtain ⟨ns, os, rfl, members, order⟩ := alike.of_object
  have entry : (e.1, toJson e.2) ∈ m.map (fun e => (e.1, toJson e.2)) :=
    List.mem_map_of_mem (f := fun e : String × α => (e.1, toJson e.2)) member
  obtain ⟨n, there, -, alike⟩ := exists_of_mem_left members entry
  rw [document, documentMembers_eq, keyed] at found
  obtain ⟨r, reads, -⟩ := Option.map_eq_some_iff.mp found
  rw [mapM_eq_some_iff, List.forall₂_map_left_iff] at reads
  obtain ⟨x, -, read⟩ := exists_of_mem_left reads (order.mem_iff.mp there)
  exact ⟨n.2, x.2, alike, (member_eq_some_iff.mp read).2⟩

end Reader

/-! ### Records -/

namespace Record

theorem filter_key_none {β : Type} {l : List (String × β)} {name : String}
    (missing : name ∉ l.map Prod.fst) : l.filter (fun m => m.1 == name) = [] := by
  refine List.filter_eq_nil_iff.mpr (fun m member same => missing ?_)
  rw [← beq_iff_eq.mp same]
  exact List.mem_map_of_mem member

theorem filter_key {β : Type} {l : List (String × β)} {e : String × β}
    (distinct : (l.map Prod.fst).Nodup) (member : e ∈ l) :
    l.filter (fun m => m.1 == e.1) = [e] := by
  induction l with
  | nil => cases member
  | cons m l ih =>
    obtain ⟨new, distinct⟩ := List.nodup_cons.mp distinct
    rw [List.filter_cons]
    rcases List.mem_cons.mp member with rfl | later
    · rw [if_pos (beq_self_eq_true _), filter_key_none new]
    · have other : ¬(m.1 == e.1) = true := by
        intro same
        rw [beq_iff_eq.mp same] at new
        exact new (List.mem_map_of_mem later)
      rw [if_neg other, ih distinct later]

theorem slotOf?_of_mem {members : List (String × Document)} {m : String × Document}
    (distinct : (members.map Prod.fst).Nodup) (member : m ∈ members) :
    slotOf? members m.1 = some (.given m.2) := by
  rw [slotOf?, filter_key distinct member]

theorem exists_slotOf? {members : List (String × Document)} (distinct : (members.map Prod.fst).Nodup)
    (name : String) : ∃ slot, slotOf? members name = some slot := by
  by_cases member : name ∈ members.map Prod.fst
  · obtain ⟨m, found, rfl⟩ := List.mem_map.mp member
    exact ⟨_, slotOf?_of_mem distinct found⟩
  · exact ⟨.missing, by rw [slotOf?, filter_key_none member]⟩

theorem lookup_map {β : Type} {names : List String} {name : String} (f : String → β)
    (member : name ∈ names) : (names.map (fun n => (n, f n))).lookup name = some (f name) := by
  induction names with
  | nil => cases member
  | cons n names ih =>
    rw [List.map_cons, List.lookup_cons]
    split
    · next same => rw [beq_iff_eq.mp same]
    · next other =>
      rcases List.mem_cons.mp member with rfl | later
      · rw [beq_self_eq_true] at other
        cases other
      · exact ih later

theorem keys?_documentMembers (members : List (String × Json)) :
    keys? (documentMembers members) = some (members.map (fun m => (m.1, m.2.document))) := by
  rw [keys?, Reader.mapM_eq_some_iff, documentMembers_eq, List.forall₂_map_left_iff,
    List.forall₂_map_right_iff]
  exact List.forall₂_same.mpr (fun _ _ => rfl)

structure Holds (r : Record) (names : List String) (depth : Nat) (ms : List (String × Json)) :
    Prop where
  depth : r.depth = depth
  fields : ∀ m ∈ ms, m.1 ∈ names →
    ∃ other, Alike m.2 other ∧ r.slot m.1 = .given other.document

/-- A written object is a record of its fields, in whatever order they come. -/
theorem exists_holds (depth : Nat) {written : Json} (alike : Alike (.object ms) written)
    (distinct : (ms.map Prod.fst).Nodup) (names : List String) :
    ∃ r, Record.of? names (depth + 1) written.document = some r ∧ r.Holds names depth ms := by
  obtain ⟨ns, os, rfl, members, order⟩ := alike.of_object
  let found := os.map (fun m => (m.1, m.2.document))
  have nodup : (found.map Prod.fst).Nodup := by
    have same : found.map Prod.fst = os.map Prod.fst := by
      rw [List.map_map]
      rfl
    rw [same, ← (order.map Prod.fst).nodup_iff, keys_of_beside members]
    exact distinct
  choose slot slots using exists_slotOf? nodup
  have all : names.mapM (fun name => (slotOf? found name).bind (fun slot => some (name, slot))) =
      some (names.map (fun name => (name, slot name))) := by
    rw [Reader.mapM_eq_some_iff, List.forall₂_map_right_iff]
    refine List.forall₂_same.mpr (fun name _ => ?_)
    rw [slots name]
    rfl
  refine ⟨⟨depth, names.map (fun name => (name, slot name))⟩, ?_, rfl, ?_⟩
  · change (keys? (documentMembers os)).bind _ = _
    rw [keys?_documentMembers, Option.bind_some]
    change (names.mapM (fun name => (slotOf? found name).bind (fun slot => some (name, slot)))).bind
      _ = _
    rw [all, Option.bind_some]
  · intro m member listed
    obtain ⟨n, member, same, alike⟩ := exists_of_mem_left members member
    have there : (n.1, n.2.document) ∈ found :=
      List.mem_map_of_mem (f := fun m : String × Json => (m.1, m.2.document))
        (order.mem_iff.mp member)
    refine ⟨n.2, alike, ?_⟩
    rw [Record.slot, lookup_map slot listed, Option.getD_some]
    have value := slots m.1
    rw [same, slotOf?_of_mem nodup there] at value
    rw [same]
    exact (Option.some.inj value).symm

variable {r : Record} {name : String} {names : List String} {value : Json} {read : Reader α} {x : α}
  {condition : Prop}

theorem required_of_given {d : Document} (slot : r.slot name = .given d) (read : Reader α) :
    r.required name read = read r.depth d := by
  rw [required, slot]

theorem optional_of_given {d : Document} (slot : r.slot name = .given d) (read : Reader α) :
    r.optional name read = read.nullable r.depth d := by
  rw [optional, slot]

theorem Holds.required_iff (holds : r.Holds names depth ms) (name : String)
    (member : (name, value) ∈ ms) (listed : name ∈ names) (keeps : read.Keeps depth x value condition) :
    r.required name read = some x ↔ condition := by
  obtain ⟨other, alike, slot⟩ := holds.fields _ member listed
  rw [required_of_given slot, holds.depth]
  exact keeps other alike

theorem Holds.required (holds : r.Holds names depth ms) (name : String)
    (member : (name, value) ∈ ms) (listed : name ∈ names) (keeps : read.Keeps depth x value True) :
    r.required name read = some x :=
  (holds.required_iff name member listed keeps).mpr trivial

theorem Holds.defaulted_iff (holds : r.Holds names depth ms) (name : String)
    (member : (name, value) ∈ ms) (listed : name ∈ names) (keeps : read.Keeps depth x value condition) {default : α} :
    r.defaulted name read default = some x ↔ condition := by
  obtain ⟨other, alike, slot⟩ := holds.fields _ member listed
  rw [defaulted, show r.slot name = _ from slot, holds.depth]
  exact keeps other alike

theorem Holds.defaulted (holds : r.Holds names depth ms) (name : String)
    (member : (name, value) ∈ ms) (listed : name ∈ names) (keeps : read.Keeps depth x value True)
    (default : α) : r.defaulted name read default = some x :=
  (holds.defaulted_iff name member listed keeps).mpr trivial

theorem Holds.optional_iff {o : Option α} (holds : r.Holds names depth ms) (name : String)
    (member : (name, value) ∈ ms) (listed : name ∈ names)
    (keeps : read.nullable.Keeps depth o value condition) :
    r.optional name read = some o ↔ condition := by
  obtain ⟨other, alike, slot⟩ := holds.fields _ member listed
  rw [optional_of_given slot, holds.depth]
  exact keeps other alike

end Record

end ServingSweep.Json

namespace ServingSweep.Binary64
variable {x : Binary64} {depth : Nat}
open Json (Reader)

/-- The text that is written for the float reads back as the float, bit by bit. -/
def ReadsBack (x : Binary64) : Prop := Reader.ofText? Reader.real (Json.real x).write = some x

instance : Decidable x.ReadsBack :=
  inferInstanceAs (Decidable (Reader.ofText? Reader.real (Json.real x).write = some x))

theorem real_of_finite (finite : x.isFinite = true) :
    Json.real x = .number (.real ⟨x, finite⟩) := by
  rw [Json.real, Json.Number.ofReal?, dif_pos finite]
  rfl

theorem real_of_not_finite (infinite : x.isFinite = false) : Json.real x = .null := by
  rw [Json.real, Json.Number.ofReal?, dif_neg (by rw [infinite]; decide)]
  rfl

theorem keeps_real (x : Binary64) : Reader.real.Keeps depth x (Json.real x) x.ReadsBack := by
  rw [ReadsBack, Reader.ofText?_write]
  intro written alike
  cases finite : x.isFinite with
  | true =>
    rw [real_of_finite finite] at alike ⊢
    cases alike
    exact Iff.rfl
  | false =>
    rw [real_of_not_finite finite] at alike ⊢
    cases alike
    exact Iff.rfl

theorem isFinite_of_read {written : Json} (alike : Json.Alike (Json.real x) written) {y : Binary64}
    (found : Reader.real depth written.document = some y) : x.isFinite = true := by
  refine Bool.of_not_eq_false (fun infinite => ?_)
  rw [real_of_not_finite infinite] at alike
  cases alike
  cases found

theorem ReadsBack.isFinite (back : x.ReadsBack) : x.isFinite = true := by
  rw [ReadsBack, Reader.ofText?_write] at back
  exact isFinite_of_read (.same _) back

end ServingSweep.Binary64
