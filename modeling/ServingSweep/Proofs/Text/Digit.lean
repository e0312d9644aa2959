import Mathlib.Algebra.GroupWithZero.Nat
import ServingSweep.Text.Digit

/-!
Digits as they are written and read. A run of digits is read up to the first character that is
none, and the digits that write a number have it as their value.
-/

namespace ServingSweep.Text
variable {cs rest : List Char} {d n most : Nat}

/-! ### Runs of digits -/

def IsDigits (cs : List Char) : Prop := ∀ c ∈ cs, (digit? c).isSome = true

def values (cs : List Char) : List Nat := cs.filterMap digit?

def Stops (rest : List Char) : Prop := ∀ c ∈ rest.head?, digit? c = none

theorem IsDigits.append {cs ds : List Char} (left : IsDigits cs) (right : IsDigits ds) :
    IsDigits (cs ++ ds) :=
  fun c member => (List.mem_append.mp member).elim (left c) (right c)

theorem isDigits_replicate : IsDigits (List.replicate n '0') := by
  intro c member
  rw [List.eq_of_mem_replicate member]
  decide

theorem values_append (cs ds : List Char) : values (cs ++ ds) = values cs ++ values ds :=
  List.filterMap_append

theorem values_replicate : values (List.replicate n '0') = List.replicate n 0 :=
  List.filterMap_replicate_of_some (by decide)

theorem length_values (digits : IsDigits cs) : (values cs).length = cs.length := by
  induction cs with
  | nil => rfl
  | cons c cs ih =>
    obtain ⟨d, value⟩ := Option.isSome_iff_exists.mp (digits c List.mem_cons_self)
    have later := ih (fun c member => digits c (List.mem_cons_of_mem _ member))
    rw [values] at later ⊢
    rw [List.filterMap_cons_some value, List.length_cons, later, List.length_cons]

theorem leadingDigits_append (digits : IsDigits cs) (stops : Stops rest) :
    leadingDigits (cs ++ rest) = (values cs, rest) := by
  have taken : (cs ++ rest).takeWhile (digit? · |>.isSome) = cs := by
    rw [List.takeWhile_append_of_pos digits]
    cases rest with
    | nil => exact List.append_nil cs
    | cons c rest =>
      have none := stops c rfl
      rw [List.takeWhile_cons_of_neg (by rw [none]; decide), List.append_nil]
  have dropped : (cs ++ rest).dropWhile (digit? · |>.isSome) = rest := by
    rw [List.dropWhile_append_of_pos digits]
    cases rest with
    | nil => rfl
    | cons c rest =>
      have none := stops c rfl
      rw [List.dropWhile_cons_of_neg (by rw [none]; decide)]
  rw [leadingDigits, taken, dropped, values]

/-- At most so many digits are read; those there are if none follows. -/
theorem digits_append (digits : IsDigits cs)
    (ends : cs.length = most ∨ cs.length < most ∧ Stops rest) :
    Text.digits most (cs ++ rest) = (values cs, rest) := by
  induction cs generalizing most with
  | nil =>
    rcases ends with rfl | ⟨more, stops⟩
    · rfl
    · obtain ⟨most, rfl⟩ := Nat.exists_eq_add_one_of_ne_zero (Nat.ne_of_gt more)
      cases rest with
      | nil => rfl
      | cons c rest => simp only [List.nil_append, Text.digits, stops c rfl]; rfl
  | cons c cs ih =>
    rw [List.length_cons] at ends
    obtain ⟨most, rfl⟩ : ∃ k, most = k + 1 := ⟨most - 1, by omega⟩
    obtain ⟨d, value⟩ := Option.isSome_iff_exists.mp (digits c List.mem_cons_self)
    have later := ih (fun c member => digits c (List.mem_cons_of_mem _ member))
      (ends.imp Nat.succ.inj (And.imp_left Nat.lt_of_succ_lt_succ))
    simp only [List.cons_append, Text.digits, value, later, values,
      List.filterMap_cons_some value]

/-! ### Numbers -/

theorem number_append (ds : List Nat) (d : Nat) : number (ds ++ [d]) = number ds * 10 + d :=
  List.foldl_append

theorem number_replicate (ds : List Nat) : number (List.replicate n 0 ++ ds) = number ds := by
  induction n with
  | zero => rfl
  | succ n ih => rw [← ih]; rfl

theorem digit?_digitChar (small : d < 10) : digit? (Nat.digitChar d) = some d :=
  (by decide : ∀ d < 10, digit? (Nat.digitChar d) = some d) d small

theorem isDigits_toDigits (n : Nat) : IsDigits (Nat.toDigits 10 n) := by
  induction n using Nat.strongRecOn with
  | ind n ih =>
    have last : IsDigits [Nat.digitChar (n % 10)] := by
      intro c member
      rw [List.mem_singleton.mp member, digit?_digitChar (Nat.mod_lt n (by decide))]
      rfl
    rw [Nat.toDigits_eq_if (by decide)]
    split
    · next small => rwa [Nat.mod_eq_of_lt small] at last
    · exact (ih (n / 10) (by omega)).append last

theorem number_toDigits (n : Nat) : number (values (Nat.toDigits 10 n)) = n := by
  induction n using Nat.strongRecOn with
  | ind n ih =>
    rw [Nat.toDigits_eq_if (by decide)]
    split
    · next small =>
      rw [values, List.filterMap_cons_some (digit?_digitChar small)]
      exact Nat.zero_add n
    · have last : values [Nat.digitChar (n % 10)] = [n % 10] :=
        List.filterMap_cons_some (digit?_digitChar (Nat.mod_lt n (by decide)))
      rw [values_append, last, number_append, ih (n / 10) (by omega)]
      omega

theorem head?_toDigits (positive : 0 < n) : (Nat.toDigits 10 n).head? ≠ some '0' := by
  induction n using Nat.strongRecOn with
  | ind n ih =>
    rw [Nat.toDigits_eq_if (by decide)]
    split
    · next small =>
      exact (by decide : ∀ d < 10, 0 < d → [Nat.digitChar d].head? ≠ some '0') n small positive
    · have before := ih (n / 10) (by omega) (by omega)
      obtain ⟨c, cs, same⟩ := List.exists_cons_of_ne_nil (Nat.toDigits_ne_nil (n := n / 10))
      rw [same] at before ⊢
      exact before

/-! ### Hexadecimal digits -/

theorem hexDigit?_digitChar (small : d < 16) : hexDigit? (Nat.digitChar d) = some d :=
  (by decide : ∀ d < 16, hexDigit? (Nat.digitChar d) = some d) d small

theorem length_hexDigits (n value : Nat) : (hexDigits n value).length = n := by
  induction n generalizing value with
  | zero => rfl
  | succ n ih => rw [hexDigits, List.length_append, ih]; rfl

/-- The digits of a number, read in order, have its value as far as they reach. -/
theorem foldlM_hexDigits (n value : Nat) :
    (hexDigits n value).foldlM (fun acc c => (hexDigit? c).map (acc * 16 + ·)) 0 =
      some (value % 16 ^ n) := by
  induction n generalizing value with
  | zero => simp [hexDigits, Nat.mod_one]
  | succ n ih =>
    rw [hexDigits, List.foldlM_append, ih]
    have last : hexDigit? (Nat.digitChar (value % 16)) = some (value % 16) :=
      hexDigit?_digitChar (Nat.mod_lt value (by decide))
    change (hexDigit? (Nat.digitChar (value % 16))).map (value / 16 % 16 ^ n * 16 + ·) >>= _ = _
    rw [last]
    change some (value / 16 % 16 ^ n * 16 + value % 16) = _
    rw [Nat.pow_succ, Nat.mul_comm (16 ^ n), Nat.mod_mul, Nat.add_comm, Nat.mul_comm]

end ServingSweep.Text
