import ServingSweep.Instant
import ServingSweep.Proofs.Text.Digit

/-!
An instant reads back from the form it is written in: each part of the text is taken up to where it
ends, and an offset of nothing changes nothing.
-/

namespace ServingSweep.Instant
open Text (IsDigits Stops)
variable {cs rest : List Char} {c : Char} {width n : Nat}

/-! ### Padded numbers -/

theorem isDigits_padded (width n : Nat) : IsDigits (padded width n) :=
  Text.isDigits_replicate.append (Text.isDigits_toDigits n)

theorem number_padded (width n : Nat) : Text.number (Text.values (padded width n)) = n := by
  rw [padded, Text.values_append, Text.values_replicate, Text.number_replicate,
    Text.number_toDigits]

theorem length_padded (fits : n < 10 ^ (width + 1)) : (padded (width + 1) n).length = width + 1 := by
  have length : (Nat.toDigits 10 n).length ≤ width + 1 :=
    (Nat.length_toDigits_le_iff (by decide) (Nat.succ_pos width)).mpr fits
  rw [padded, List.length_append, List.length_replicate]
  omega

theorem exists_padded (width n : Nat) :
    ∃ c cs, padded width n = c :: cs ∧ (Text.digit? c).isSome = true := by
  have filled : padded width n ≠ [] := List.append_ne_nil_of_right_ne_nil _ Nat.toDigits_ne_nil
  obtain ⟨c, cs, same⟩ := List.exists_cons_of_ne_nil filled
  have digits := isDigits_padded width n
  rw [same] at digits
  exact ⟨c, cs, same, digits c List.mem_cons_self⟩

theorem isBlank_digit (digit : (Text.digit? c).isSome = true) : Text.isBlank c = false := by
  have range : 48 ≤ c.toNat ∧ c.toNat ≤ 57 := by
    rw [Text.digit?] at digit
    split at digit
    · next within => exact within
    · cases digit
  refine List.any_eq_false.mpr (fun r member => ?_)
  simp only [Text.blankRanges, List.mem_cons, List.not_mem_nil, or_false] at member
  rcases member with rfl | rfl | rfl | rfl | rfl | rfl | rfl | rfl | rfl | rfl <;>
    simp only [decide_eq_true_eq] <;> omega

theorem trimLeft_padded (width n : Nat) (rest : List Char) :
    Text.trimLeft (padded width n ++ rest) = padded width n ++ rest := by
  obtain ⟨c, cs, same, digit⟩ := exists_padded width n
  rw [same, Text.trimLeft, List.cons_append,
    List.dropWhile_cons_of_neg (by rw [isBlank_digit digit]; decide)]

theorem number?_of_digits {most : Nat} {ds : List Nat}
    (read : Text.digits most cs = (ds, rest)) (filled : ds ≠ []) :
    number? most cs = some (Text.number ds, rest) := by
  obtain ⟨d, ds, rfl⟩ := List.exists_cons_of_ne_nil filled
  rw [number?, read]

theorem values_padded_ne_nil (width n : Nat) : Text.values (padded width n) ≠ [] := by
  intro none
  obtain ⟨c, cs, same, -⟩ := exists_padded width n
  have length := Text.length_values (isDigits_padded width n)
  rw [none, same] at length
  cases length

/-- A number of the width that is read, or one that no digit follows. -/
theorem number?_padded {most : Nat} (ends : (padded width n).length = most ∨
    (padded width n).length < most ∧ Stops rest) :
    number? most (padded width n ++ rest) = some (n, rest) := by
  rw [number?_of_digits (Text.digits_append (isDigits_padded width n) ends)
    (values_padded_ne_nil width n), number_padded]

theorem part?_padded (fits : n < 100) (rest : List Char) :
    part? (padded 2 n ++ rest) = some (n, rest) := by
  rw [part?, trimLeft_padded, number?_padded (.inl (length_padded fits))]

theorem after?_cons (shown : Text.isBlank c = false) (cs : List Char) :
    after? c (c :: cs) = some cs := by
  rw [after?, Text.trimLeft, List.dropWhile_cons_of_neg (by rw [shown]; decide)]
  exact if_pos rfl

/-! ### Years and places -/

theorem year?_writeYear (year : Int) (rest : List Char) :
    year? (writeYear year ++ '-' :: rest) = some (year, '-' :: rest) := by
  have stops : Stops ('-' :: rest) := by
    intro c member
    cases member
    decide
  have long (n : Nat) : number? (padded 4 n ++ '-' :: rest).length (padded 4 n ++ '-' :: rest) =
      some (n, '-' :: rest) := by
    refine number?_padded (.inr ⟨?_, stops⟩)
    rw [List.length_append, List.length_cons]
    omega
  rw [writeYear]
  split
  · next short =>
    obtain ⟨c, cs, same, digit⟩ := exists_padded 4 year.toNat
    have read : number? 4 (padded 4 year.toNat ++ '-' :: rest) = some (year.toNat, '-' :: rest) :=
      number?_padded (.inl (length_padded (by omega)))
    rw [year?, trimLeft_padded]
    rw [same, List.cons_append] at read ⊢
    split
    · next sign => injection sign with sign; subst sign; cases digit
    · next sign => injection sign with sign; subst sign; cases digit
    · rw [read, Option.map_some, Int.toNat_of_nonneg short.1]
  · have found := long year.natAbs
    split
    · next negative =>
      change (number? (padded 4 year.natAbs ++ '-' :: rest).length
        (padded 4 year.natAbs ++ '-' :: rest)).map _ = _
      rw [found, Option.map_some, show -(year.natAbs : Int) = year by omega]
    · next positive =>
      change (number? (padded 4 year.natAbs ++ '-' :: rest).length
        (padded 4 year.natAbs ++ '-' :: rest)).map _ = _
      rw [found, Option.map_some, show (year.natAbs : Int) = year by omega]

/-- Places that need no further digits have the value of their digits, moved to the left. -/
theorem places?_padded (short : (padded width n).length ≤ 9) (stops : Stops rest) :
    places? ('.' :: (padded width n ++ rest)) =
      some (n * Nat.pow 10 (9 - (padded width n).length), rest) := by
  have digits := Text.digits_append (isDigits_padded width n)
    ((Nat.lt_or_eq_of_le short).symm.imp id (⟨·, stops⟩))
  have length := Text.length_values (isDigits_padded width n)
  have number := number_padded width n
  obtain ⟨d, ds, same⟩ := List.exists_cons_of_ne_nil (values_padded_ne_nil width n)
  rw [same] at digits length number
  have kept : rest.dropWhile (fun c => (Text.digit? c).isSome) = rest := by
    cases rest with
    | nil => rfl
    | cons c rest => rw [List.dropWhile_cons_of_neg (by rw [stops c rfl]; decide)]
  rw [places?, digits]
  simp only [number, length, kept]

theorem places?_writePlaces (fits : n < 1000000000) (rest : List Char) :
    places? (writePlaces n ++ 'Z' :: rest) = some (n, 'Z' :: rest) := by
  have stops : Stops ('Z' :: rest) := by
    intro c member
    cases member
    decide
  have places (width value : Nat) (length : (padded (width + 1) value).length = width + 1)
      (short : width + 1 ≤ 9) : places? ('.' :: (padded (width + 1) value ++ 'Z' :: rest)) =
        some (value * Nat.pow 10 (9 - (width + 1)), 'Z' :: rest) := by
    rw [places?_padded (by omega) stops, length]
  rw [writePlaces]
  split
  · next zero => rw [zero]; rfl
  · split
    · next thousandths =>
      rw [List.cons_append, places 2 _ (length_padded (by omega)) (by decide)]
      congr 2
      change n / 1000000 * 1000000 = n
      omega
    · split
      · next millionths =>
        rw [List.cons_append, places 5 _ (length_padded (by omega)) (by decide)]
        congr 2
        change n / 1000 * 1000 = n
        omega
      · rw [List.cons_append, places 8 _ (length_padded (by omega)) (by decide)]
        congr 2
        exact Nat.mul_one n

/-! ### Instants -/

theorem toUtc_zero {t : CivilTime} (hour : t.hour < 24) (minute : t.minute < 60) :
    toUtc t 0 = t := by
  have quotient : ((t.hour : Int) * 60 + t.minute - 0).toNat / 60 = t.hour := by omega
  have rest : ((t.hour : Int) * 60 + t.minute - 0).toNat % 60 = t.minute := by omega
  rw [toUtc, if_neg (by omega), if_neg (by omega)]
  simp only [quotient, rest]

theorem ofString?_toString (i : Instant) : ofString? i.toString = some i := by
  obtain ⟨⟨⟨year, month, day⟩, hour, minute, second, nanosecond⟩, valid⟩ := i
  have ranges := valid
  simp only [CivilTime.isValid, Date.isValid, Bool.and_eq_true, decide_eq_true_eq] at ranges
  obtain ⟨⟨-, -, -, month_le, -, day_le⟩, hour_lt, minute_lt, second_le, nanosecond_lt⟩ := ranges
  have days : Date.daysIn year month ≤ 31 := by
    rw [Date.daysIn]
    split
    · split <;> decide
    · split <;> decide
  have utc : toUtc ⟨⟨year, month, day⟩, hour, minute, second, nanosecond⟩ 0 =
      ⟨⟨year, month, day⟩, hour, minute, second, nanosecond⟩ := toUtc_zero hour_lt minute_lt
  have offset : offset? ['Z'] = some (0, []) := rfl
  have dash : Text.isBlank '-' = false := by decide
  have colon : Text.isBlank ':' = false := by decide
  rw [ofString?, toString, String.toList_ofList]
  simp only [List.append_assoc, List.cons_append]
  -- Every reader takes its part of the text and leaves the parts after it.
  refine Option.bind_eq_some_iff.mpr ⟨_, year?_writeYear year _, ?_⟩
  refine Option.bind_eq_some_iff.mpr ⟨_, after?_cons dash _, ?_⟩
  refine Option.bind_eq_some_iff.mpr ⟨_, part?_padded (by omega : month < 100) _, ?_⟩
  refine Option.bind_eq_some_iff.mpr ⟨_, after?_cons dash _, ?_⟩
  refine Option.bind_eq_some_iff.mpr ⟨_, part?_padded (by omega : day < 100) _, ?_⟩
  refine Option.bind_eq_some_iff.mpr ⟨_, rfl, ?_⟩
  refine Option.bind_eq_some_iff.mpr ⟨_, part?_padded (by omega : hour < 100) _, ?_⟩
  refine Option.bind_eq_some_iff.mpr ⟨_, after?_cons colon _, ?_⟩
  refine Option.bind_eq_some_iff.mpr ⟨_, part?_padded (by omega : minute < 100) _, ?_⟩
  refine Option.bind_eq_some_iff.mpr ⟨_, after?_cons colon _, ?_⟩
  refine Option.bind_eq_some_iff.mpr ⟨_, part?_padded (by omega : second < 100) _, ?_⟩
  refine Option.bind_eq_some_iff.mpr ⟨_, places?_writePlaces nanosecond_lt _, ?_⟩
  refine Option.bind_eq_some_iff.mpr ⟨_, offset, ?_⟩
  simp only [utc, valid]
  rfl

end ServingSweep.Instant
