import ServingSweep.Json.Document
import ServingSweep.Proofs.Json.Numerals
import ServingSweep.Proofs.Json.Quoted

/-!
The text of a value reads back as its document: it splits into the words of the value, and these
form the value again. No number, text or nesting is refused at this stage; what a reader makes of
the document is its own concern.
-/

namespace ServingSweep.Json
variable {cs rest : List Char} {ts : List Token} {fuel : Nat}

mutual

def words : Json → List Token
  | .null => [.null]
  | .bool b => [.bool b]
  | .number n => [.number n.numeral]
  | .text s => [.text (some s)]
  | .array [] => [.openArray, .closeArray]
  | .array (item :: items) => .openArray :: words item ++ itemWords items
  | .object [] => [.openObject, .closeObject]
  | .object ((key, value) :: members) =>
    .openObject :: .text (some key) :: .colon :: words value ++ memberWords members

def itemWords : List Json → List Token
  | [] => [.closeArray]
  | item :: items => .comma :: words item ++ itemWords items

def memberWords : List (String × Json) → List Token
  | [] => [.closeObject]
  | (key, value) :: members =>
    .comma :: .text (some key) :: .colon :: words value ++ memberWords members

end

mutual

def document : Json → Document
  | .null => .null
  | .bool b => .bool b
  | .number n => .number n.numeral
  | .text s => .text (some s)
  | .array items => .array (documents items)
  | .object members => .object (documentMembers members)

def documents : List Json → List Document
  | [] => []
  | item :: items => document item :: documents items

def documentMembers : List (String × Json) → List (Option String × Document)
  | [] => []
  | (key, value) :: members => (some key, document value) :: documentMembers members

end

theorem documents_eq (items : List Json) : documents items = items.map document := by
  induction items with
  | nil => rfl
  | cons item items ih => rw [documents, ih, List.map_cons]

theorem documentMembers_eq (members : List (String × Json)) :
    documentMembers members = members.map (fun m => (some m.1, m.2.document)) := by
  induction members with
  | nil => rfl
  | cons m members ih => rw [documentMembers, ih, List.map_cons]

/-! ### From a text to its words -/

/-- The text splits into the words, with no blanks between them. -/
inductive Token.Splits : List Char → List Token → Prop
  | done : Splits [] []
  | word {cs rest : List Char} {t : Token} {ts : List Token}
      (starts : ∃ c ∈ cs.head?, Token.isBlank c = false)
      (first : Token.first? (cs ++ rest) = some (t, rest)) (further : Splits rest ts) :
      Splits (cs ++ rest) (t :: ts)

theorem Token.Splits.scan (splits : Token.Splits cs ts) (found : List Token)
    (enough : cs.length < fuel) : Token.scan fuel found cs = some (found.reverse ++ ts) := by
  induction splits generalizing fuel found with
  | done =>
    obtain ⟨fuel, rfl⟩ := Nat.exists_eq_add_one_of_ne_zero (Nat.ne_of_gt enough)
    rw [Token.scan, List.append_nil]
  | @word cs rest t ts starts first further ih =>
    obtain ⟨fuel, rfl⟩ := Nat.exists_eq_add_one_of_ne_zero (Nat.ne_of_gt (Nat.zero_lt_of_lt enough))
    obtain ⟨c, head, shown⟩ := starts
    cases cs with
    | nil => cases head
    | cons d cs =>
      cases head
      rw [List.cons_append] at first enough ⊢
      rw [List.length_cons, List.length_append] at enough
      simp only [Token.scan, shown, first, Bool.false_eq_true, if_false]
      rw [ih (t :: found) (by omega), List.reverse_cons, List.append_assoc]
      rfl

theorem Token.Splits.mark {c : Char} {t : Token} (shown : Token.isBlank c = false)
    (first : Token.first? (c :: rest) = some (t, rest)) (further : Token.Splits rest ts) :
    Token.Splits (c :: rest) (t :: ts) :=
  show Token.Splits ([c] ++ rest) (t :: ts) from .word ⟨c, rfl, shown⟩ first further

theorem Token.Splits.key (key : String) (further : Token.Splits rest ts) :
    Token.Splits (quoted key ++ ':' :: rest) (.text (some key) :: .colon :: ts) :=
  .word ⟨'"', rfl, by decide⟩ (first?_quoted key _) (.mark (by decide) rfl further)

theorem ends_itemChars (items : List Json) (rest : List Char) : Ends (itemChars items ++ rest) := by
  cases items with
  | nil => exact fun c member => .inr (.inl (Option.mem_some.mp member).symm)
  | cons item items => exact fun c member => .inl (Option.mem_some.mp member).symm

theorem ends_memberChars (members : List (String × Json)) (rest : List Char) :
    Ends (memberChars members ++ rest) := by
  cases members with
  | nil => exact fun c member => .inr (.inr (Option.mem_some.mp member).symm)
  | cons m members => exact fun c member => .inl (Option.mem_some.mp member).symm

mutual

theorem splits_chars : ∀ (j : Json) {rest : List Char} {ts : List Token}, Ends rest →
    Token.Splits rest ts → Token.Splits (j.chars ++ rest) (j.words ++ ts)
  | .null, _, _, _, further | .bool true, _, _, _, further | .bool false, _, _, _, further =>
    .word ⟨_, rfl, by decide⟩ rfl further
  | .number n, _, _, ends, further => .word n.writes.starts (n.writes.first _ ends) further
  | .text s, _, _, _, further => .word ⟨'"', rfl, by decide⟩ (first?_quoted s _) further
  | .array [], _, _, _, further => .mark (by decide) rfl (.mark (by decide) rfl further)
  | .array (item :: items), rest, ts, _, further => by
    have inner := splits_chars item (ends_itemChars items rest) (splits_items items further)
    simp only [chars, words, List.cons_append, List.append_assoc]
    exact .mark (by decide) rfl inner
  | .object [], _, _, _, further => .mark (by decide) rfl (.mark (by decide) rfl further)
  | .object ((key, value) :: members), rest, ts, _, further => by
    have inner := splits_chars value (ends_memberChars members rest) (splits_members members further)
    simp only [chars, words, List.cons_append, List.append_assoc]
    exact .mark (by decide) rfl (.key key inner)

theorem splits_items : ∀ (items : List Json) {rest : List Char} {ts : List Token},
    Token.Splits rest ts → Token.Splits (itemChars items ++ rest) (itemWords items ++ ts)
  | [], _, _, further => .mark (by decide) rfl further
  | item :: items, rest, ts, further => by
    have inner := splits_chars item (ends_itemChars items rest) (splits_items items further)
    simp only [itemChars, itemWords, List.cons_append, List.append_assoc]
    exact .mark (by decide) rfl inner

theorem splits_members : ∀ (members : List (String × Json)) {rest : List Char} {ts : List Token},
    Token.Splits rest ts → Token.Splits (memberChars members ++ rest) (memberWords members ++ ts)
  | [], _, _, further => .mark (by decide) rfl further
  | (key, value) :: members, rest, ts, further => by
    have inner := splits_chars value (ends_memberChars members rest) (splits_members members further)
    simp only [memberChars, memberWords, List.cons_append, List.append_assoc]
    exact .mark (by decide) rfl (.key key inner)

end

theorem Token.ofText?_write (j : Json) : Token.ofText? j.write = some j.words := by
  have splits := splits_chars j ends_nil .done
  rw [List.append_nil, List.append_nil] at splits
  rw [Token.ofText?, write, String.toList_ofList]
  exact splits.scan [] (Nat.lt_succ_self _)

/-! ### From the words to the document -/

namespace Document

/-- No value begins with a closing bracket. -/
theorem exists_words (j : Json) : ∃ t ts, j.words = t :: ts ∧ t ≠ .closeArray := by
  rcases j with _ | _ | _ | _ | (_ | ⟨item, items⟩) | (_ | ⟨⟨key, value⟩, members⟩) <;>
    exact ⟨_, _, rfl, Token.noConfusion⟩

/-- An array with items, since what follows its bracket does not close it. -/
theorem value?_openArray {t : Token} (more : t ≠ .closeArray) {items : List Document}
    {rest : List Token} (read : items? fuel (t :: ts) = some (items, rest)) :
    value? (fuel + 1) (.openArray :: t :: ts) = some (.array items, rest) := by
  cases t with
  | closeArray => exact absurd rfl more
  | _ => simp only [value?, read]

/-- The words read back as the document, whatever follows. -/
def Reads (ts : List Token) (d : Document) : Prop :=
  ∀ fuel rest, 2 * ts.length ≤ fuel → value? fuel (ts ++ rest) = some (d, rest)

theorem reads_of_succ {t : Token} {d : Document}
    (read : ∀ fuel rest, 2 * ts.length < fuel →
      value? (fuel + 1) (t :: (ts ++ rest)) = some (d, rest)) : Reads (t :: ts) d := by
  intro fuel rest enough
  rw [List.length_cons] at enough
  obtain ⟨fuel, rfl⟩ : ∃ k, fuel = k + 1 := ⟨fuel - 1, by omega⟩
  exact read fuel rest (by omega)

theorem items?_cons {d : Document} {items : List Json} (reads : Reads ts d)
    (later : ∀ next further, items = next :: further → ∀ fuel rest,
      2 * (next.words ++ itemWords further).length ≤ fuel →
        items? fuel (next.words ++ itemWords further ++ rest) = some (documents items, rest))
    (enough : 2 * (ts ++ itemWords items).length ≤ fuel) (rest : List Token) :
    items? fuel (ts ++ itemWords items ++ rest) = some (d :: documents items, rest) := by
  rw [List.length_append] at enough
  cases items with
  | nil =>
    rw [itemWords, List.length_singleton] at enough
    obtain ⟨fuel, rfl⟩ : ∃ k, fuel = k + 1 := ⟨fuel - 1, by omega⟩
    have first := reads fuel (.closeArray :: rest) (by omega)
    rw [itemWords, List.append_assoc, List.singleton_append, items?, first]
    rfl
  | cons next items =>
    rw [itemWords, List.cons_append, List.length_cons] at enough
    obtain ⟨fuel, rfl⟩ : ∃ k, fuel = k + 1 := ⟨fuel - 1, by omega⟩
    have first := reads fuel (.comma :: (next.words ++ itemWords items ++ rest)) (by omega)
    have further := later next items rfl fuel rest (by omega)
    rw [itemWords, List.append_assoc, List.cons_append, List.cons_append, items?, first]
    simp only [further]

theorem members?_cons {d : Document} {members : List (String × Json)} (reads : Reads ts d)
    (later : ∀ key value further, members = (key, value) :: further → ∀ fuel rest,
      2 * (value.words ++ memberWords further).length < fuel →
        members? fuel (.text (some key) :: .colon :: (value.words ++ memberWords further ++ rest)) =
          some (documentMembers members, rest))
    (enough : 2 * (ts ++ memberWords members).length < fuel) (key : String) (rest : List Token) :
    members? fuel (.text (some key) :: .colon :: (ts ++ memberWords members ++ rest)) =
      some ((some key, d) :: documentMembers members, rest) := by
  rw [List.length_append] at enough
  obtain ⟨fuel, rfl⟩ : ∃ k, fuel = k + 1 := ⟨fuel - 1, by omega⟩
  cases members with
  | nil =>
    rw [memberWords, List.length_singleton] at enough
    have first := reads fuel (.closeObject :: rest) (by omega)
    rw [memberWords, List.append_assoc, List.singleton_append, members?, first]
    rfl
  | cons next members =>
    obtain ⟨key', value⟩ := next
    simp only [memberWords, List.cons_append, List.length_cons] at enough
    have first := reads fuel
      (.comma :: .text (some key') :: .colon :: (value.words ++ memberWords members ++ rest))
      (by omega)
    have further := later key' value members rfl fuel rest (by omega)
    simp only [memberWords, List.append_assoc, List.cons_append] at first further ⊢
    simp only [members?, first, further]

mutual

theorem reads_words : ∀ j : Json, Reads j.words j.document
  | .null | .bool _ | .number _ | .text _ => reads_of_succ (fun _ _ _ => rfl)
  | .array [] => reads_of_succ (fun _ _ _ => rfl)
  | .array (item :: items) => by
    rw [show words (.array (item :: items)) = .openArray :: (item.words ++ itemWords items) from rfl]
    refine reads_of_succ (fun fuel rest enough => ?_)
    -- Each word pays for two calls, so after the bracket enough is left for all items.
    have read := items?_words items (reads_words item) fuel rest (Nat.le_of_lt enough)
    obtain ⟨t, ts, same, more⟩ := exists_words item
    simp only [same, List.cons_append] at read ⊢
    exact value?_openArray more read
  | .object [] => reads_of_succ (fun _ _ _ => rfl)
  | .object ((key, value) :: members) => by
    rw [show words (.object ((key, value) :: members)) =
      .openObject :: .text (some key) :: .colon :: (value.words ++ memberWords members) from rfl]
    refine reads_of_succ (fun fuel rest enough => ?_)
    rw [List.length_cons, List.length_cons] at enough
    have read := members?_words members (reads_words value) key fuel rest (by omega)
    simp only [List.cons_append, value?, read]
    rfl

theorem items?_words : ∀ (items : List Json) {ts : List Token} {d : Document}, Reads ts d →
    ∀ fuel rest, 2 * (ts ++ itemWords items).length ≤ fuel →
      items? fuel (ts ++ itemWords items ++ rest) = some (d :: documents items, rest)
  | [], _, _, reads, _, rest, enough =>
    items?_cons reads (fun _ _ same => absurd same (List.cons_ne_nil _ _).symm) enough rest
  | item :: items, _, _, reads, _, rest, enough =>
    items?_cons reads (by
      rintro _ _ ⟨⟩
      exact items?_words items (reads_words item)) enough rest

theorem members?_words : ∀ (members : List (String × Json)) {ts : List Token} {d : Document},
    Reads ts d → ∀ (key : String) fuel rest, 2 * (ts ++ memberWords members).length < fuel →
      members? fuel (.text (some key) :: .colon :: (ts ++ memberWords members ++ rest)) =
        some ((some key, d) :: documentMembers members, rest)
  | [], _, _, reads, key, _, rest, enough =>
    members?_cons reads (fun _ _ _ same => absurd same (List.cons_ne_nil _ _).symm) enough key rest
  | (name, value) :: members, _, _, reads, key, _, rest, enough =>
    members?_cons reads (by
      rintro _ _ _ ⟨⟩
      exact members?_words members (reads_words value) name) enough key rest

end

/-- The text of a value reads back as its document. -/
theorem ofText?_write (j : Json) : ofText? j.write = some j.document := by
  have read := reads_words j (2 * j.words.length + 2) [] (by omega)
  rw [List.append_nil] at read
  rw [ofText?, Token.ofText?_write]
  simp only [read]

end Document

theorem Reader.ofText?_write {α : Type} (read : Reader α) (j : Json) :
    Reader.ofText? read j.write = read maxDepth j.document := by
  rw [Reader.ofText?, Document.ofText?_write, Option.bind_some]

end ServingSweep.Json
