import ServingSweep.Json.Tree
import ServingSweep.Proofs.Decimal.Shortest
import ServingSweep.Proofs.Text.Digit

/-!
The text of a number is one numeral, wherever a value may end. That of an integer has neither point
nor exponent, that of a float has a point or an exponent; so a reader can tell them apart.
-/

namespace ServingSweep.Json
open Text
variable {cs rest whole fraction : List Char} {negative : Bool} {c : Char} {x : Binary64}

/-- Where a value may end: with the text, or before a comma or a closing bracket. -/
def Ends (rest : List Char) : Prop := ∀ c ∈ rest.head?, c = ',' ∨ c = ']' ∨ c = '}'

theorem ends_nil : Ends [] := fun _ member => nomatch member

theorem Ends.stops (ends : Ends rest) : Stops rest := by
  intro c member
  rcases ends c member with rfl | rfl | rfl <;> decide

namespace Token

/-! ### Parts of a numeral -/

def Whole (cs : List Char) : Prop := cs = ['0'] ∨ IsDigits cs ∧ cs ≠ [] ∧ cs.head? ≠ some '0'

theorem whole_zero : Whole ['0'] := .inl rfl

theorem whole_toDigits (n : Nat) : Whole (Nat.toDigits 10 n) := by
  rcases Nat.eq_zero_or_pos n with rfl | positive
  · exact .inl rfl
  · exact .inr ⟨isDigits_toDigits n, Nat.toDigits_ne_nil, head?_toDigits positive⟩

theorem Whole.isDigits (whole : Whole cs) : IsDigits cs := by
  rcases whole with rfl | ⟨digits, -⟩
  · exact fun c member => by rw [List.mem_singleton.mp member]; decide
  · exact digits

theorem values_ne_nil (digits : IsDigits cs) (filled : cs ≠ []) : values cs ≠ [] := by
  intro none
  have length := length_values digits
  rw [none] at length
  exact filled (List.length_eq_zero_iff.mp length.symm)

theorem whole?_append (whole : Whole cs) (stops : Stops rest) :
    whole? (cs ++ rest) = some (values cs, rest) := by
  have digits := whole.isDigits
  rcases whole with rfl | ⟨-, filled, head⟩
  · rfl
  · have read := leadingDigits_append digits stops
    obtain ⟨d, ds, found⟩ := List.exists_cons_of_ne_nil (values_ne_nil digits filled)
    rw [found] at read ⊢
    rw [whole?.eq_def]
    split
    · next same =>
      obtain ⟨c, cs, rfl⟩ := List.exists_cons_of_ne_nil filled
      injection same with same
      exact absurd (congrArg some same) head
    · rw [read]

theorem fraction?_append (digits : IsDigits cs) (filled : cs ≠ []) (stops : Stops rest) :
    fraction? ('.' :: cs ++ rest) = some (values cs, rest) := by
  obtain ⟨d, ds, found⟩ := List.exists_cons_of_ne_nil (values_ne_nil digits filled)
  rw [List.cons_append, fraction?, leadingDigits_append digits stops, found]

theorem fraction?_none (other : rest.head? ≠ some '.') : fraction? rest = some ([], rest) := by
  rw [fraction?.eq_def]
  split
  · exact absurd rfl other
  · rfl

theorem power?_append (digits : IsDigits cs) (filled : cs ≠ []) (stops : Stops rest) :
    power? negative (cs ++ rest) = some (some (negative, values cs), rest) := by
  obtain ⟨d, ds, found⟩ := List.exists_cons_of_ne_nil (values_ne_nil digits filled)
  rw [power?, leadingDigits_append digits stops, found]

theorem exponent?_none (ends : Ends rest) : exponent? rest = some (none, rest) := by
  cases rest with
  | nil => rfl
  | cons c rest =>
    refine if_neg ?_
    rcases ends c rfl with rfl | rfl | rfl <;> decide

/-! ### Numerals -/

def Spells (cs : List Char) (negative : Bool) (n : Numeral) : Prop :=
  ∀ rest, Ends rest → numeral? negative (cs ++ rest) = some (n, rest)

theorem stops_of_head (head : rest.head? = some c) (other : digit? c = none) : Stops rest := by
  intro d member
  rw [head] at member
  cases member
  exact other

theorem spells_integer (whole : Whole cs) : Spells cs negative ⟨negative, values cs, [], none⟩ := by
  intro rest ends
  have point : rest.head? ≠ some '.' := by
    intro head
    rcases ends '.' head with same | same | same <;> cases same
  simp only [numeral?, whole?_append whole ends.stops, fraction?_none point, exponent?_none ends,
    Option.bind_eq_bind, Option.bind_some]

theorem spells_decimal (before : Whole whole) (after : IsDigits fraction) (filled : fraction ≠ []) :
    Spells (whole ++ '.' :: fraction) negative ⟨negative, values whole, values fraction, none⟩ := by
  intro rest ends
  have stops : Stops ('.' :: fraction ++ rest) := stops_of_head rfl (by decide)
  rw [List.append_assoc]
  simp only [numeral?, whole?_append before stops, fraction?_append after filled ends.stops,
    exponent?_none ends, Option.bind_eq_bind, Option.bind_some]

theorem exponent?_append (digits : IsDigits cs) (filled : cs ≠ []) (stops : Stops rest) :
    exponent? ('e' :: (if negative then '-' else '+') :: cs ++ rest) =
      some (some (negative, values cs), rest) := by
  have read : power? negative (cs ++ rest) = _ := power?_append digits filled stops
  cases negative <;> exact read

theorem spells_scientific (before : Whole whole) {point : List Char}
    (after : point = [] ∧ fraction = [] ∨
      point = '.' :: fraction ∧ IsDigits fraction ∧ fraction ≠ [])
    {power : List Char} (digits : IsDigits power) (filled : power ≠ []) {below : Bool} :
    Spells (whole ++ point ++ 'e' :: (if below then '-' else '+') :: power) negative
      ⟨negative, values whole, values fraction, some (below, values power)⟩ := by
  intro rest ends
  have mark : Stops ('e' :: (if below then '-' else '+') :: power ++ rest) :=
    stops_of_head rfl (by decide)
  have read : exponent? ('e' :: (if below then '-' else '+') :: power ++ rest) = _ :=
    exponent?_append digits filled ends.stops
  rw [List.append_assoc, List.append_assoc]
  rcases after with ⟨rfl, rfl⟩ | ⟨rfl, digits, filled⟩
  · have other : ('e' :: (if below then '-' else '+') :: power ++ rest).head? ≠ some '.' := by
      rintro ⟨⟩
    simp only [numeral?, List.nil_append, whole?_append before mark, fraction?_none other, read,
      Option.bind_eq_bind, Option.bind_some]
    rfl
  · have stops : Stops ('.' :: fraction ++ ('e' :: (if below then '-' else '+') :: power ++ rest)) :=
      stops_of_head rfl (by decide)
    simp only [numeral?, whole?_append before stops, fraction?_append digits filled mark, read,
      Option.bind_eq_bind, Option.bind_some]

end Token

/-! ### Floats -/

theorem isInteger_of_fraction {n : Numeral} (filled : n.fraction ≠ []) : n.isInteger = false := by
  rw [Numeral.isInteger, List.isEmpty_eq_false_iff.mpr filled, Bool.false_and]

/-- Some of the leading digits, and zeros after them. -/
theorem Token.whole_take (digits : IsDigits cs) (filled : cs ≠ []) (head : cs.head? ≠ some '0')
    (n zeros : Nat) : Token.Whole (cs.take (n + 1) ++ List.replicate zeros '0') := by
  obtain ⟨c, cs, rfl⟩ := List.exists_cons_of_ne_nil filled
  have taken : IsDigits ((c :: cs).take (n + 1)) :=
    fun d member => digits d (List.mem_of_mem_take member)
  exact .inr ⟨taken.append isDigits_replicate, List.cons_ne_nil _ _, head⟩

theorem spells_plain (digits : IsDigits cs) (filled : cs ≠ []) (head : cs.head? ≠ some '0')
    (decade : Int) : ∃ n : Numeral, n.isInteger = false ∧
      ∀ negative, Token.Spells (Layout.plain cs decade) negative { n with negative } := by
  rw [Layout.plain]
  split
  · have after : IsDigits (List.replicate (-decade - 1).toNat '0' ++ cs) :=
      isDigits_replicate.append digits
    have found : List.replicate (-decade - 1).toNat '0' ++ cs ≠ [] :=
      List.append_ne_nil_of_right_ne_nil _ filled
    refine ⟨⟨false, values ['0'], values _, none⟩, ?_,
      fun negative => Token.spells_decimal Token.whole_zero after found⟩
    exact isInteger_of_fraction (Token.values_ne_nil after found)
  · let after := if (cs.drop (decade.toNat + 1)).isEmpty then ['0'] else cs.drop (decade.toNat + 1)
    have figures : IsDigits after ∧ after ≠ [] := by
      unfold after
      split
      · exact ⟨Token.whole_zero.isDigits, List.cons_ne_nil _ _⟩
      · next more =>
        exact ⟨fun d member => digits d (List.mem_of_mem_drop member),
          fun none => more (List.isEmpty_iff.mpr none)⟩
    refine ⟨⟨false, values _, values after, none⟩, ?_,
      fun negative => Token.spells_decimal (Token.whole_take digits filled head _ _) figures.1
        figures.2⟩
    exact isInteger_of_fraction (Token.values_ne_nil figures.1 figures.2)

theorem spells_scientific (digits : IsDigits cs) (filled : cs ≠ []) (head : cs.head? ≠ some '0')
    (decade : Int) : ∃ n : Numeral, n.isInteger = false ∧
      ∀ negative, Token.Spells (Layout.json.scientific cs decade) negative { n with negative } := by
  have power := isDigits_toDigits decade.natAbs
  have whole : Token.Whole (cs.take 1) := by
    have taken := Token.whole_take digits filled head 0 0
    rwa [List.replicate_zero, List.append_nil] at taken
  let point := if cs.length ≤ 1 then [] else '.' :: cs.drop 1
  have after : point = [] ∧ cs.drop 1 = [] ∨
      point = '.' :: cs.drop 1 ∧ IsDigits (cs.drop 1) ∧ cs.drop 1 ≠ [] := by
    unfold point
    split
    · next short => exact .inl ⟨rfl, List.drop_eq_nil_of_le short⟩
    · next more =>
      exact .inr ⟨rfl, fun d member => digits d (List.mem_of_mem_drop member),
        fun none => more (List.drop_eq_nil_iff.mp none)⟩
  have shape : Layout.json.scientific cs decade = cs.take 1 ++ point ++
      'e' :: (if decide (decade < 0) then '-' else '+') :: Nat.toDigits 10 decade.natAbs := by
    have front : (if cs.length ≤ 1 then cs else cs.take 1 ++ '.' :: cs.drop 1) =
        cs.take 1 ++ point := by
      unfold point
      split
      · next short => rw [List.append_nil, List.take_of_length_le short]
      · rfl
    have sign : (if decade < 0 then "-" else Layout.json.exponentSign).toList =
        [if decide (decade < 0) then '-' else '+'] := by
      simp only [decide_eq_true_eq]
      split <;> rfl
    simp only [Layout.scientific, front, sign, List.append_assoc, List.cons_append, List.nil_append]
  refine ⟨⟨false, values (cs.take 1), values (cs.drop 1),
    some (decide (decade < 0), values (Nat.toDigits 10 decade.natAbs))⟩, ?_, ?_⟩
  · exact Bool.and_false _
  · intro negative
    rw [shape]
    exact Token.spells_scientific whole after power Nat.toDigits_ne_nil

/-- The characters of a float, after its sign, are a numeral with a point or an exponent. -/
theorem exists_spells_size (x : Binary64) : ∃ n : Numeral, n.isInteger = false ∧
    ∀ negative, Token.Spells (Layout.json.size x) negative { n with negative } := by
  rw [Layout.size]
  split
  · have zero := Token.whole_zero.isDigits
    exact ⟨⟨false, [0], [0], none⟩, rfl,
      fun negative => Token.spells_decimal Token.whole_zero zero (List.cons_ne_nil _ _)⟩
  · next nonzero =>
    have digits := isDigits_toDigits (Decimal.shortest x).digits
    have head := head?_toDigits (Decimal.shortest_pos (Bool.eq_false_iff.mpr nonzero))
    dsimp only
    split
    · exact spells_plain digits Nat.toDigits_ne_nil head _
    · exact spells_scientific digits Nat.toDigits_ne_nil head _

/-! ### Numbers -/

/-- The characters are one word, the numeral, and no blank comes first. -/
structure Token.Writes (cs : List Char) (n : Numeral) : Prop where
  starts : ∃ c ∈ cs.head?, Token.isBlank c = false
  first : ∀ rest, Ends rest → Token.first? (cs ++ rest) = some (.number n, rest)

theorem Token.first?_digit (digit : (digit? c).isSome = true) (cs : List Char) :
    Token.first? (c :: cs) =
      (Token.numeral? false (c :: cs)).map (fun found => (.number found.1, found.2)) := by
  rw [Token.first?.eq_def]
  split
  all_goals first
    | (next same => injection same with same; subst same; cases digit)
    | rfl

theorem Token.isBlank_digit (digit : (digit? c).isSome = true) : Token.isBlank c = false := by
  refine Bool.eq_false_iff.mpr (fun blank => ?_)
  simp only [Token.isBlank, Bool.or_eq_true, beq_iff_eq] at blank
  rcases blank with ((rfl | rfl) | rfl) | rfl <;> cases digit

theorem Token.Spells.starts {n : Numeral} (spells : Token.Spells cs negative n) :
    ∃ c ds, cs = c :: ds ∧ (digit? c).isSome = true := by
  have read := spells [] ends_nil
  rw [List.append_nil, Token.numeral?] at read
  obtain ⟨⟨ds, rest⟩, found, -⟩ := Option.bind_eq_some_iff.mp read
  cases cs with
  | nil => cases found
  | cons c cs =>
    refine ⟨c, cs, rfl, ?_⟩
    rw [Token.whole?.eq_def] at found
    split at found
    · next same => injection same with same; subst same; decide
    · refine Option.isSome_iff_ne_none.mpr (fun none => ?_)
      rw [leadingDigits, List.takeWhile_cons_of_neg (by rw [none]; decide)] at found
      cases found

theorem Token.writes_of_spells {n : Numeral} (spells : Token.Spells cs negative n) :
    Token.Writes (if negative then '-' :: cs else cs) n := by
  obtain ⟨c, ds, rfl, digit⟩ := spells.starts
  cases negative with
  | true =>
    refine ⟨⟨'-', rfl, by decide⟩, fun rest ends => ?_⟩
    change (Token.numeral? true (c :: ds ++ rest)).map _ = _
    rw [spells rest ends]
    rfl
  | false =>
    refine ⟨⟨c, rfl, Token.isBlank_digit digit⟩, fun rest ends => ?_⟩
    change Token.first? (c :: (ds ++ rest)) = _
    rw [Token.first?_digit digit, ← List.cons_append, spells rest ends]
    rfl

theorem exists_writes_integer (n : WideInt) : ∃ m : Numeral, m.integer? = some n.val ∧
    Token.Writes (Number.integer n).write.toList m := by
  obtain ⟨val, lower, upper⟩ := n
  cases val with
  | ofNat k =>
    refine ⟨⟨false, values (Nat.toDigits 10 k), [], none⟩, ?_, ?_⟩
    · exact congrArg (fun value : Nat => some (value : Int)) (number_toDigits k)
    · change Token.Writes k.repr.toList _
      rw [Nat.toList_repr]
      have spells : Token.Spells (Nat.toDigits 10 k) false _ :=
        Token.spells_integer (Token.whole_toDigits k)
      exact Token.writes_of_spells spells
  | negSucc k =>
    refine ⟨⟨true, values (Nat.toDigits 10 (k + 1)), [], none⟩, ?_, ?_⟩
    · have value : Numeral.wholeValue ⟨true, values (Nat.toDigits 10 (k + 1)), [], none⟩ = k + 1 :=
        number_toDigits (k + 1)
      simp only [Numeral.integer?, value]
      rfl
    · change Token.Writes ("-" ++ (k + 1).repr).toList _
      rw [String.toList_append, Nat.toList_repr]
      have spells : Token.Spells (Nat.toDigits 10 (k + 1)) true _ :=
        Token.spells_integer (Token.whole_toDigits (k + 1))
      exact Token.writes_of_spells spells

theorem write_json (x : Finite) : (Layout.json.write x.val).toList =
    if x.val.isNegative then '-' :: Layout.json.size x.val else Layout.json.size x.val := by
  have number : x.val.isNaN = false := by
    have finite := x.finite
    simp only [Binary64.isFinite, Binary64.isNaN, decide_eq_true_eq, decide_eq_false_iff_not]
      at finite ⊢
    omega
  simp only [Layout.write, number, x.finite, Bool.false_eq_true, Bool.not_true, if_false,
    String.toList_ofList]

theorem exists_writes_real (x : Finite) : ∃ m : Numeral, m.integer? = none ∧
    Token.Writes (Number.real x).write.toList m := by
  obtain ⟨n, float, spells⟩ := exists_spells_size x.val
  refine ⟨{ n with negative := x.val.isNegative }, ?_, ?_⟩
  · have float : Numeral.isInteger { n with negative := x.val.isNegative } = false := float
    rw [Numeral.integer?, float]
    rfl
  · rw [Number.write, write_json]
    exact Token.writes_of_spells (spells _)

def Number.numeral (n : Number) : Numeral :=
  match Token.first? n.write.toList with
  | some (.number m, _) => m
  | _ => ⟨n.toReal.isNegative, [], [], none⟩

theorem Number.numeral_of_writes {n : Number} {m : Numeral}
    (writes : Token.Writes n.write.toList m) : n.numeral = m := by
  have alone := writes.first [] ends_nil
  rw [List.append_nil] at alone
  rw [numeral, alone]

theorem Number.writes (n : Number) : Token.Writes n.write.toList n.numeral := by
  cases n with
  | integer n =>
    obtain ⟨m, -, writes⟩ := exists_writes_integer n
    rwa [numeral_of_writes writes]
  | real x =>
    obtain ⟨m, -, writes⟩ := exists_writes_real x
    rwa [numeral_of_writes writes]

theorem Number.integer?_integer (n : WideInt) : (Number.integer n).numeral.integer? = some n.val := by
  obtain ⟨m, value, writes⟩ := exists_writes_integer n
  rwa [numeral_of_writes writes]

theorem Number.integer?_real (x : Finite) : (Number.real x).numeral.integer? = none := by
  obtain ⟨m, value, writes⟩ := exists_writes_real x
  rwa [numeral_of_writes writes]

end ServingSweep.Json
