import Mathlib.Algebra.GroupWithZero.Nat
import ServingSweep.Plan.Basic

/-!
The numbers that bounds sweep. `mem_doublings` and `mem_all` say which they are; both lists go
strictly up, so no number comes twice. What is known of the doublings (`doubles_exactly`) comes from
one induction, `getElem?_doublingsFrom`, which gives their list place by place.
-/

namespace ServingSweep.Bounds
variable {b : Bounds} {most n : UInt32} {steps : Nat}

/-! ### Doublings -/

theorem toNat_double (fits : n.toNat * 2 < 0x100000000) : (n * 2).toNat = n.toNat * 2 := by
  rw [UInt32.toNat_mul]
  exact Nat.mod_eq_of_lt fits

/-- Doublings one by one. They stop at the most or where the next one leaves 32 bits, never for
want of steps. -/
theorem getElem?_doublingsFrom (enough : 0x100000000 ≤ n.toNat * 2 ^ steps) (k : Nat) :
    (doublingsFrom most steps n)[k]?.map UInt32.toNat =
      if n.toNat * 2 ^ k ≤ most.toNat then some (n.toNat * 2 ^ k) else none := by
  induction steps generalizing n k with
  | zero =>
    have small := n.toNat_lt
    omega
  | succ steps ih =>
    rw [doublingsFrom]
    split
    · next within =>
      rw [UInt32.le_iff_toNat_le] at within
      cases k with
      | zero =>
        rw [Nat.pow_zero, Nat.mul_one, if_pos within]
        rfl
      | succ k =>
        rw [Nat.pow_succ', ← Nat.mul_assoc, List.getElem?_cons_succ]
        split
        · next fits =>
          have same := toNat_double fits
          rw [← same]
          exact ih (by rw [same, Nat.mul_assoc, ← Nat.pow_succ']; exact enough) k
        · next leaves =>
          -- what leaves 32 bits is beyond the most, so both ways to stop list the same
          have small := most.toNat_lt
          have grows : n.toNat * 2 ≤ n.toNat * 2 * 2 ^ k :=
            Nat.le_mul_of_pos_right _ (Nat.two_pow_pos k)
          rw [if_neg (by omega)]
          rfl
    · next beyond =>
      rw [UInt32.le_iff_toNat_le] at beyond
      have grows : n.toNat ≤ n.toNat * 2 ^ k := Nat.le_mul_of_pos_right _ (Nat.two_pow_pos k)
      rw [if_neg (by omega)]
      rfl

theorem doublingsFrom_add (enough : 0x100000000 ≤ n.toNat * 2 ^ steps) (more : Nat) :
    doublingsFrom most (steps + more) n = doublingsFrom most steps n := by
  have still : 0x100000000 ≤ n.toNat * 2 ^ (steps + more) :=
    Nat.le_trans enough (Nat.mul_le_mul_left _ (Nat.pow_le_pow_right (by decide) (by omega)))
  apply List.ext_getElem?
  intro k
  refine Option.map_injective (fun _ _ => UInt32.toNat_inj.mp) ?_
  rw [getElem?_doublingsFrom still, getElem?_doublingsFrom enough]

theorem toNat_max : (max b.least 1).toNat = max b.least.toNat 1 := by
  change (if b.least ≤ 1 then (1 : UInt32) else b.least).toNat = _
  have small : b.least ≤ 1 ↔ b.least.toNat ≤ 1 := UInt32.le_iff_toNat_le
  split
  · next least =>
    rw [small] at least
    exact (Nat.max_eq_right least).symm
  · next more =>
    rw [small] at more
    exact (Nat.max_eq_left (by omega)).symm

theorem enough_doublings (b : Bounds) : 0x100000000 ≤ (max b.least 1).toNat * 2 ^ 32 := by
  rw [toNat_max]
  omega

theorem getElem?_doublings (b : Bounds) (k : Nat) : b.doublings[k]?.map UInt32.toNat =
    if max b.least.toNat 1 * 2 ^ k ≤ b.most.toNat then some (max b.least.toNat 1 * 2 ^ k)
    else none := by
  rw [← toNat_max]
  exact getElem?_doublingsFrom b.enough_doublings k

theorem getElem?_doublings_eq_some_iff {k : Nat} :
    b.doublings[k]? = some n ↔ n.toNat = max b.least.toNat 1 * 2 ^ k ∧ n ≤ b.most := by
  have words : b.doublings[k]? = some n ↔ b.doublings[k]?.map UInt32.toNat = some n.toNat := by
    cases b.doublings[k]? with
    | none => simp
    | some x => simp [UInt32.toNat_inj]
  rw [words, getElem?_doublings, UInt32.le_iff_toNat_le]
  split
  · next within =>
    rw [Option.some.injEq]
    omega
  · next beyond =>
    simp only [reduceCtorEq, false_iff]
    omega

theorem getElem?_doublings_eq_none_iff {k : Nat} :
    b.doublings[k]? = none ↔ b.most.toNat < max b.least.toNat 1 * 2 ^ k := by
  rw [← Option.map_eq_none_iff (f := UInt32.toNat), getElem?_doublings]
  split
  · next within =>
    simp only [reduceCtorEq, false_iff]
    omega
  · next beyond =>
    simp only [true_iff]
    omega

/-- The doublings are the least number, but 1 at least, times the powers of 2, up to the most. -/
theorem mem_doublings :
    n ∈ b.doublings ↔ ∃ k, n.toNat = max b.least.toNat 1 * 2 ^ k ∧ n ≤ b.most := by
  rw [List.mem_iff_getElem?]
  exact exists_congr (fun k => getElem?_doublings_eq_some_iff)

theorem pairwise_doublings (b : Bounds) : b.doublings.Pairwise (· < ·) := by
  rw [List.pairwise_iff_getElem]
  intro i j first second before
  obtain ⟨same, -⟩ := getElem?_doublings_eq_some_iff.mp (List.getElem?_eq_getElem first)
  obtain ⟨same', -⟩ := getElem?_doublings_eq_some_iff.mp (List.getElem?_eq_getElem second)
  have grows : 2 ^ i < 2 ^ j := Nat.pow_lt_pow_right (by decide) before
  rw [UInt32.lt_iff_toNat_lt, same, same']
  exact Nat.mul_lt_mul_of_pos_left grows (by omega)

theorem doublings_eq_nil_iff : b.doublings = [] ↔ b.most.toNat < max b.least.toNat 1 := by
  rw [← List.head?_eq_none_iff, List.head?_eq_getElem?, getElem?_doublings_eq_none_iff,
    Nat.pow_zero, Nat.mul_one]

theorem lt_of_getLast?_doublings (last : b.doublings.getLast? = some n) :
    b.most.toNat < n.toNat * 2 := by
  rw [List.getLast?_eq_getElem?] at last
  obtain ⟨same, -⟩ := getElem?_doublings_eq_some_iff.mp last
  have ended : b.doublings[b.doublings.length - 1 + 1]? = none :=
    List.getElem?_eq_none (by omega)
  rw [getElem?_doublings_eq_none_iff, Nat.pow_succ, ← Nat.mul_assoc, ← same] at ended
  exact ended

theorem toNat_ofNat_of_le {i : Nat} (within : i ≤ b.most.toNat) : (UInt32.ofNat i).toNat = i :=
  UInt32.toNat_ofNat_of_lt' (Nat.lt_of_le_of_lt within b.most.toNat_lt)

/-- No doubling wraps around and none is missed, as natural numbers that need not fit 32 bits. -/
theorem mem_toNat_doublings {i : Nat} : i ∈ b.doublings.map UInt32.toNat ↔
    (∃ k, i = max b.least.toNat 1 * 2 ^ k) ∧ i ≤ b.most.toNat := by
  rw [List.mem_map]
  constructor
  · rintro ⟨n, member, rfl⟩
    obtain ⟨k, same, within⟩ := mem_doublings.mp member
    exact ⟨⟨k, same⟩, UInt32.le_iff_toNat_le.mp within⟩
  · rintro ⟨⟨k, same⟩, within⟩
    have word := toNat_ofNat_of_le within
    refine ⟨UInt32.ofNat i, mem_doublings.mpr ⟨k, word.trans same, ?_⟩, word⟩
    rw [UInt32.le_iff_toNat_le, word]
    exact within

/-- Doubling ends by itself within the steps there are. What it lists, in order and each once, is
all that the least number, but 1 at least, comes to times a power of 2 up to the most. -/
theorem doubles_exactly (b : Bounds) :
    (∀ more, doublingsFrom b.most (32 + more) (max b.least 1) = b.doublings) ∧
      b.doublings.Pairwise (· < ·) ∧
      (∀ i : Nat, i ∈ b.doublings.map UInt32.toNat ↔
        (∃ k, i = max b.least.toNat 1 * 2 ^ k) ∧ i ≤ b.most.toNat) ∧
      (b.doublings = [] ↔ b.most.toNat < max b.least.toNat 1) ∧
      ∀ last ∈ b.doublings.getLast?, b.most.toNat < last.toNat * 2 := by
  refine ⟨?_, b.pairwise_doublings, fun i => mem_toNat_doublings, doublings_eq_nil_iff, ?_⟩
  · intro more
    exact doublingsFrom_add b.enough_doublings more
  · intro last member
    exact lt_of_getLast?_doublings member

/-- Here the doublings end because the next one would leave 32 bits. -/
theorem doubles_exactly_wordEnd :
    3221225472 ∈ (Bounds.mk 3 4294967295).doublings.getLast? ∧
      (4294967295 : UInt32).toNat < (3221225472 : UInt32).toNat * 2 := by
  have last : 3221225472 ∈ (Bounds.mk 3 4294967295).doublings.getLast? := by decide
  exact ⟨last, (doubles_exactly ⟨3, 4294967295⟩).2.2.2.2 _ last⟩

/-! ### Every number within the bounds -/

def Covers (b : Bounds) (n : UInt32) : Prop := b.least ≤ n ∧ n ≤ b.most

instance (b : Bounds) (n : UInt32) : Decidable (b.Covers n) :=
  inferInstanceAs (Decidable (b.least ≤ n ∧ n ≤ b.most))

theorem mem_all : n ∈ b.all.toList ↔ b.Covers n := by
  rw [all, Series.toList_count, List.mem_map, Covers, UInt32.le_iff_toNat_le,
    UInt32.le_iff_toNat_le]
  constructor
  · rintro ⟨i, counted, rfl⟩
    have inside := List.mem_range'_1.mp counted
    rw [toNat_ofNat_of_le (b := b) (by omega)]
    omega
  · rintro ⟨least, most⟩
    exact ⟨n.toNat, List.mem_range'_1.mpr (by omega), UInt32.ofNat_toNat⟩

theorem pairwise_all (b : Bounds) : b.all.toList.Pairwise (· < ·) := by
  rw [all, Series.toList_count, List.pairwise_map]
  refine List.Pairwise.imp_of_mem ?_ List.pairwise_lt_range'
  intro i j first second less
  have inside := List.mem_range'_1.mp first
  have inside' := List.mem_range'_1.mp second
  rw [UInt32.lt_iff_toNat_lt, toNat_ofNat_of_le (b := b) (by omega),
    toNat_ofNat_of_le (b := b) (by omega)]
  exact less

/-! ### Bounds without a fault -/

theorem of_fault?_eq_none {name : String} (sound : b.fault? name = none) :
    1 ≤ b.least.toNat ∧ b.least ≤ b.most := by
  unfold fault? at sound
  split at sound
  · cases sound
  · next positive =>
    split at sound
    · cases sound
    · next ordered =>
      have least : b.least.toNat ≠ 0 := fun zero => positive (UInt32.toNat_inj.mp zero)
      exact ⟨by omega, UInt32.not_lt.mp ordered⟩

end ServingSweep.Bounds
