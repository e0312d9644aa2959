import Mathlib.Data.Nat.Bitwise
import ServingSweep.Binary64

/-!
Integers as binary64 numbers. Rounding an integer of 64 bits leaves its exponent far below the
largest one, so the result is finite. At the end, which numbers the numeric order does not tell
apart: the two zeros.
-/

namespace ServingSweep.Binary64
open Float.Model (Format UnpackedFloat)
open Float.Model.UnpackedFloat hiding round normalize

theorem mantissa_shiftRight_le (em : ExtendedMantissa) (n : Nat) :
    (n.repeat ExtendedMantissa.shiftRightOne em).mantissa ≤ em.mantissa := by
  induction n with
  | zero => exact Nat.le_refl _
  | succ n ih => exact Nat.le_trans (Nat.div_le_self _ 2) ih

theorem roundedMantissa_le (em : ExtendedMantissa) : em.roundedMantissa ≤ em.mantissa + 1 := by
  unfold ExtendedMantissa.roundedMantissa Accuracy.roundToNearestEven
  split <;> omega

theorem log2_le_of_le {m n : Nat} (le : n ≤ m + 1) : n.log2 ≤ m.log2 + 1 := by
  by_cases zero : n = 0
  · subst zero
    exact Nat.zero_le _
  · refine Nat.lt_succ_iff.mp ((Nat.log2_lt zero).mpr ?_)
    have below : m < 2 ^ (m.log2 + 1) := Nat.lt_log2_self
    have doubled : 2 ^ (m.log2 + 1 + 1) = 2 * 2 ^ (m.log2 + 1) := Nat.pow_succ'
    omega

def Within (limit : Int) : UnpackedFloat → Prop
  | .zero _ => True
  | .finite _ _ exponent _ => exponent ≤ limit
  | _ => False

theorem targetExponent_le {total limit : Int} (le : total ≤ limit + 53) (low : -1074 ≤ limit) :
    Format.binary64.targetExponent total ≤ limit := by
  have least : Format.binary64.minExponent = -1074 := by decide
  have bits : (Format.binary64.mantissaBits : Int) = 53 := by decide
  unfold Format.targetExponent
  omega

theorem shiftToTargetExponent_le {m : Nat} {e limit : Int} (accuracy : Accuracy)
    (exponent : e ≤ limit) (size : m.log2 + 1 + e ≤ limit + 53) (low : -1074 ≤ limit) :
    (shiftToTargetExponent Format.binary64 m e accuracy).2 ≤ limit := by
  have target := targetExponent_le size low
  unfold shiftToTargetExponent shiftToExponent Float.Model.totalExponent
  dsimp only
  omega

theorem within_roundWithAccuracy (sign : Sign) {m : Nat} {e : Int} (size : m.log2 ≤ 115)
    (exponent : e ≤ 0) : Within 128 (roundWithAccuracy Format.binary64 sign m e .exact) := by
  have either {mantissa : Nat} {exponent : Int} (le : exponent ≤ 128) :
      Within 128 (if zero : mantissa = 0 then .zero sign
        else .finite sign mantissa exponent (Nat.pos_of_ne_zero zero)) := by
    cases mantissa with
    | zero => trivial
    | succ mantissa => exact le
  unfold roundWithAccuracy
  dsimp only
  have first : (shiftToTargetExponent Format.binary64 m e .exact).2 ≤ 63 :=
    shiftToTargetExponent_le .exact (by omega) (by omega) (by omega)
  have smaller : (shiftToTargetExponent Format.binary64 m e .exact).1.mantissa ≤ m :=
    mantissa_shiftRight_le ⟨m, false, false⟩ _
  have rounded := log2_le_of_le (Nat.le_trans (roundedMantissa_le _) (Nat.succ_le_succ smaller))
  exact either (shiftToTargetExponent_le .exact (by omega) (by omega) (by omega))

theorem within_round (sign : Sign) {n : Nat} (positive : n ≠ 0) (fits : n < 2 ^ 64) :
    Within 128 (UnpackedFloat.round Format.binary64 sign n 0) := by
  have size := (Nat.log2_lt positive).mpr fits
  unfold UnpackedFloat.round decreaseExponent Float.Model.totalExponent
  dsimp only
  generalize shift : (0 - Format.binary64.targetExponent ((n.log2 : Int) + 1 + 0)).toNat = k
  -- Normalising moves an integer up by less than the length of a mantissa.
  have few : k ≤ 52 := by
    have least : Format.binary64.minExponent = -1074 := by decide
    have bits : (Format.binary64.mantissaBits : Int) = 53 := by decide
    unfold Format.targetExponent at shift
    omega
  have shifted : n <<< k < 2 ^ 116 := by
    rw [Nat.shiftLeft_eq]
    calc n * 2 ^ k ≤ n * 2 ^ 52 := Nat.mul_le_mul_left n (Nat.pow_le_pow_right (by omega) few)
      _ < 2 ^ 64 * 2 ^ 52 := (Nat.mul_lt_mul_right (by omega)).mpr fits
      _ = 2 ^ 116 := by decide
  have still : n <<< k ≠ 0 := by
    rw [Nat.shiftLeft_eq]
    exact Nat.mul_ne_zero positive (Nat.ne_of_gt (Nat.two_pow_pos k))
  have log := (Nat.log2_lt still).mpr shifted
  exact within_roundWithAccuracy sign (by omega) (by omega)

theorem within_ofNat {n : Nat} (fits : n < 2 ^ 64) : Within 128 (ofNat Format.binary64 n) := by
  change Within 128 (UnpackedFloat.normalize Format.binary64 n 0 .positive)
  unfold UnpackedFloat.normalize
  by_cases zero : n = 0
  · subst zero
    trivial
  · have greater : compare (n : Int) 0 = .gt := Int.compare_eq_gt.mpr (by omega)
    rw [greater]
    exact within_round .positive zero fits

/-! ### Packing -/

theorem magnitude_packComponents (sign : Sign) (exponent : BitVec 11) (mantissa : BitVec 52) :
    magnitude ⟨UInt64.ofBitVec (packComponents Format.binary64 sign exponent mantissa)⟩ =
      exponent.toNat * 2 ^ 52 + mantissa.toNat := by
  have whole : (packComponents Format.binary64 sign exponent mantissa).toNat =
      (sign.toBitVec.toNat * 2 ^ 11 + exponent.toNat) * 2 ^ 52 + mantissa.toNat := by
    unfold packComponents
    rw [BitVec.toNat_append, BitVec.toNat_append, ← Nat.shiftLeft_add_eq_or_of_lt mantissa.isLt,
      ← Nat.shiftLeft_add_eq_or_of_lt exponent.isLt, Nat.shiftLeft_eq, Nat.shiftLeft_eq]
  have exponentFits := exponent.isLt
  have mantissaFits := mantissa.isLt
  change (packComponents Format.binary64 sign exponent mantissa).toNat % 0x8000000000000000 = _
  omega

theorem isFinite_of_within {f : UnpackedFloat} (within : Within 128 f) :
    isFinite ⟨(Float.Model.pack f).toBits⟩ = true := by
  have below {sign : Sign} {exponent : BitVec 11} {mantissa : BitVec 52}
      (small : exponent.toNat < 2047) :
      isFinite ⟨UInt64.ofBitVec (packComponents Format.binary64 sign exponent mantissa)⟩ = true := by
    have mantissaFits := mantissa.isLt
    rw [isFinite, magnitude_packComponents, infinite, decide_eq_true_eq]
    omega
  cases f with
  | infinity sign => cases within
  | notANumber => cases within
  | zero sign => exact @below sign 0 0 (by decide)
  | finite sign mantissa exponent positive =>
    change exponent ≤ 128 at within
    have bias : Format.binary64.exponentBias = 1023 := by decide
    have biased : (exponent + Format.binary64.exponentBias + 52).toNat < 2046 := by omega
    change isFinite ⟨UInt64.ofBitVec (pack Format.binary64
      (.finite sign mantissa exponent positive))⟩ = true
    unfold pack
    dsimp only
    rw [if_neg (by omega)]
    split
    · refine below ?_
      rw [BitVec.toNat_ofNat]
      omega
    · exact @below sign 0 _ (by decide)

theorem isFinite_ofUInt64 (n : UInt64) : (ofUInt64 n).isFinite = true :=
  isFinite_of_within (within_ofNat n.toNat_lt)

theorem isFinite_neg (x : Binary64) : x.neg.isFinite = x.isFinite := by
  have same : x.neg.magnitude = x.magnitude := by
    change (x.bits ^^^ 0x8000000000000000).toNat % 2 ^ 63 = x.bits.toNat % 2 ^ 63
    rw [UInt64.toNat_xor, Nat.xor_mod_two_pow]
    exact Nat.xor_zero _
  rw [isFinite, isFinite, same]

theorem isFinite_ofInt (n : Int) : (ofInt n).isFinite = true := by
  have size := isFinite_ofUInt64 (UInt64.ofNat n.natAbs)
  unfold ofInt
  dsimp only
  split
  · rw [isFinite_neg]
    exact size
  · exact size

/-! ### Zeros -/

/-- The number with zero in place of negative zero. -/
def unsignZero (x : Binary64) : Binary64 := if x.isZero then ⟨0⟩ else x

theorem isFinite_unsignZero (x : Binary64) : x.unsignZero.isFinite = x.isFinite := by
  unfold unsignZero
  split
  · next zero =>
    rw [isZero, beq_iff_eq] at zero
    rw [isFinite, isFinite, zero]
    rfl
  · rfl

theorem toNat_unsignZero (x : Binary64) :
    x.unsignZero.bits.toNat = if x.magnitude = 0 then 0 else x.bits.toNat := by
  simp only [unsignZero, isZero, beq_iff_eq]
  split <;> rfl

theorem key_eq_iff {x y : Binary64} : x.key = y.key ↔ x.unsignZero = y.unsignZero := by
  have left := x.bits.toNat_lt
  have right := y.bits.toNat_lt
  have bits : x.unsignZero = y.unsignZero ↔
      x.unsignZero.bits.toNat = y.unsignZero.bits.toNat := by
    rw [UInt64.toNat_inj]
    exact ⟨congrArg Binary64.bits, congrArg Binary64.mk⟩
  rw [bits, toNat_unsignZero, toNat_unsignZero]
  simp only [key, isNegative, magnitude, decide_eq_true_eq]
  grind

end ServingSweep.Binary64
