import ServingSweep.Decimal.Shortest

/-!
The shortest decimal of a number that is not zero has digits, so its text begins with a digit that
is not zero. A decimal that stands for the number is not below its bounds, and the grid that the
search ends on is no coarser than the leading digit.
-/

namespace ServingSweep
variable {r : Rounding} {d : Decimal} {x : Binary64}

theorem Decimal.trim_pos {fuel : Nat} (positive : 0 < d.digits) : 0 < (d.trim fuel).digits := by
  induction fuel generalizing d with
  | zero => exact positive
  | succ fuel ih =>
    rw [trim]
    split
    · next divides => exact ih (Nat.div_pos (by omega) (by decide))
    · exact positive

namespace Rounding

/-- How far after the point the leading digit is looked for. -/
def searched : Nat := 401

structure Positive (r : Rounding) : Prop where
  low : 0 < r.low
  mid : 0 < r.mid
  den : 0 < r.den
  reach : r.den ≤ Nat.pow 10 searched

theorem digits_pos_of_holds (low : 0 < r.low) (holds : r.holds d = true) : 0 < d.digits := by
  refine Nat.pos_of_ne_zero (fun zero => ?_)
  have unit : 0 < r.low * Nat.pow 10 (-d.exponent).toNat :=
    Nat.mul_pos low (Nat.pow_pos (by decide))
  simp only [Rounding.holds, zero, Nat.zero_mul] at holds
  split at holds <;> simp only [decide_eq_true_eq] at holds <;> omega

theorem holds_of_choose {below above : Decimal} (chosen : r.choose below above = some d) :
    r.holds d = true := by
  unfold choose at chosen
  split at chosen
  · cases chosen
  · next holds _ => cases chosen; exact holds
  · next holds => cases chosen; exact holds
  · next holdsBelow holdsAbove =>
    split at chosen
    · cases chosen; exact holdsBelow
    · split at chosen
      · cases chosen; exact holdsAbove
      · split at chosen
        · cases chosen; exact holdsBelow
        · cases chosen; exact holdsAbove

theorem decimalShift_reaches (num den fuel j : Nat) :
    den ≤ num * Nat.pow 10 (decimalShift num den fuel j) ∨
      j + fuel ≤ decimalShift num den fuel j := by
  induction fuel generalizing j with
  | zero => exact .inr (Nat.le_refl j)
  | succ fuel ih =>
    rw [decimalShift]
    split
    · next reached => exact .inl reached
    · rw [Nat.add_comm fuel, ← Nat.add_assoc]
      exact ih (j + 1)

theorem pow_decade_le (positive : r.Positive) :
    r.den * Nat.pow 10 r.decade.toNat ≤ r.mid * Nat.pow 10 (-r.decade).toNat := by
  rw [decade]
  split
  · next whole =>
    have parts : 0 < r.mid / r.den := Nat.div_pos whole positive.den
    have first : Nat.pow 10 ((Nat.toDigits 10 (r.mid / r.den)).length - 1) ≤ r.mid / r.den := by
      by_cases single : (Nat.toDigits 10 (r.mid / r.den)).length - 1 = 0
      · rw [single]
        exact parts
      · refine Nat.le_of_not_lt (fun less => ?_)
        have short := (Nat.length_toDigits_le_iff (by decide) (by omega)).mpr less
        omega
    have length : 0 < (Nat.toDigits 10 (r.mid / r.den)).length := Nat.length_toDigits_pos
    rw [show ((Nat.toDigits 10 (r.mid / r.den)).length - 1 : Int).toNat =
        (Nat.toDigits 10 (r.mid / r.den)).length - 1 by omega]
    calc r.den * Nat.pow 10 ((Nat.toDigits 10 (r.mid / r.den)).length - 1)
      _ ≤ r.den * (r.mid / r.den) := Nat.mul_le_mul_left _ first
      _ ≤ r.mid := Nat.mul_div_le r.mid r.den
      _ ≤ r.mid * Nat.pow 10 _ := Nat.le_mul_of_pos_right _ (Nat.pow_pos (by decide))
  · -- Below 1 the leading digit is looked for, and it is found in time.
    rw [show (-(decimalShift r.mid r.den 400 1 : Int)).toNat = 0 by omega,
      show (- -(decimalShift r.mid r.den 400 1 : Int)).toNat = decimalShift r.mid r.den 400 1 by omega,
      show Nat.pow 10 0 = 1 from rfl, Nat.mul_one]
    rcases decimalShift_reaches r.mid r.den 400 1 with reached | last
    · exact reached
    · -- For any two powers, since that of `searched` is too large to be evaluated.
      have grows {j k : Nat} (further : j ≤ k) : Nat.pow 10 j ≤ Nat.pow 10 k :=
        Nat.pow_le_pow_right (by decide) further
      calc r.den
        _ ≤ Nat.pow 10 searched := positive.reach
        _ ≤ Nat.pow 10 (decimalShift r.mid r.den 400 1) := grows last
        _ ≤ r.mid * Nat.pow 10 (decimalShift r.mid r.den 400 1) :=
          Nat.le_mul_of_pos_left _ positive.mid

/-- A grid no coarser than the decade has a decimal above zero at or below the number. -/
theorem floor_pos (positive : r.Positive) {places : Nat} (some : 1 ≤ places) :
    0 < (r.floor (r.decade + 1 - places)).digits := by
  refine Nat.div_pos ?_ (Nat.mul_pos positive.den (Nat.pow_pos (by decide)))
  have finer : (r.decade + 1 - places).toNat ≤ r.decade.toNat := by omega
  have further : (-r.decade).toNat ≤ (-(r.decade + 1 - places)).toNat := by omega
  calc r.den * Nat.pow 10 (r.decade + 1 - places).toNat
    _ ≤ r.den * Nat.pow 10 r.decade.toNat :=
      Nat.mul_le_mul_left _ (Nat.pow_le_pow_right (by decide) finer)
    _ ≤ r.mid * Nat.pow 10 (-r.decade).toNat := pow_decade_le positive
    _ ≤ r.mid * Nat.pow 10 (-(r.decade + 1 - places)).toNat :=
      Nat.mul_le_mul_left _ (Nat.pow_le_pow_right (by decide) further)

theorem search_pos (positive : r.Positive) {fuel places : Nat} (some : 1 ≤ places) :
    0 < (r.search fuel places).digits := by
  induction fuel generalizing places with
  | zero => exact floor_pos positive some
  | succ fuel ih =>
    rw [search]
    split
    · next chosen =>
      exact Decimal.trim_pos (digits_pos_of_holds positive.low (holds_of_choose chosen))
    · exact ih (by omega)

theorem positive_ofBinary64 (nonzero : x.isZero = false) : (ofBinary64 x).Positive := by
  have magnitude : 0 < x.magnitude := by
    simp only [Binary64.isZero, beq_eq_false_iff_ne] at nonzero
    omega
  have significand : 0 < x.significand := by
    unfold Binary64.significand
    split <;> omega
  have exponent : (2 - x.exponent).toNat ≤ 1076 := by
    unfold Binary64.exponent
    split <;> omega
  have up : 0 < Nat.pow 2 (x.exponent - 2).toNat := Nat.pow_pos (by decide)
  refine ⟨Nat.mul_pos ?_ up, Nat.mul_pos (by omega) up, Nat.pow_pos (by decide), ?_⟩
  · split <;> omega
  · exact Nat.le_trans (Nat.pow_le_pow_right (by decide) exponent) (by decide +kernel)

end Rounding

theorem Decimal.shortest_pos (nonzero : x.isZero = false) : 0 < (shortest x).digits :=
  Rounding.search_pos (Rounding.positive_ofBinary64 nonzero) (Nat.le_refl 1)

end ServingSweep
