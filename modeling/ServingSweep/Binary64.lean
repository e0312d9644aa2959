/-!
# Binary floating-point numbers, kept as bit patterns

Two numbers are equal when their 64 bits are, so a NaN equals itself and zero
differs from negative zero. `lt` and `le` are the numeric comparisons: they read
`key`, which orders all numbers but NaN and sends both zeros to 0.
-/

namespace ServingSweep

/-- A number of the binary64 format, NaN payloads included. -/
structure Binary64 where
  bits : UInt64
  deriving DecidableEq

namespace Binary64

instance : Inhabited Binary64 := ⟨⟨0⟩⟩

def isNegative (x : Binary64) : Bool := decide (0x8000000000000000 ≤ x.bits.toNat)

/-- The bits below the sign. -/
def magnitude (x : Binary64) : Nat := x.bits.toNat % 0x8000000000000000

/-- The magnitude of infinity; NaN lies above it. -/
def infinite : Nat := 0x7ff0000000000000

def isFinite (x : Binary64) : Bool := decide (x.magnitude < infinite)

def isNaN (x : Binary64) : Bool := decide (infinite < x.magnitude)

def isZero (x : Binary64) : Bool := x.magnitude == 0

/-- The place of a number in the numeric order. -/
def key (x : Binary64) : Int := if x.isNegative then -x.magnitude else x.magnitude

def lt (x y : Binary64) : Bool := !x.isNaN && !y.isNaN && decide (x.key < y.key)

def le (x y : Binary64) : Bool := !x.isNaN && !y.isNaN && decide (x.key ≤ y.key)

def neg (x : Binary64) : Binary64 := ⟨x.bits ^^^ 0x8000000000000000⟩

/-! ### Conversions -/

def toFloat (x : Binary64) : Float := Float.ofBits x.bits

def ofFloat (x : Float) : Binary64 := ⟨x.toBits⟩

/-- The nearest number, halves to even. -/
def ofUInt64 (n : UInt64) : Binary64 := ofFloat n.toFloat

/-- The nearest number to an integer of at most 64 bits and a sign. -/
def ofInt (n : Int) : Binary64 :=
  let size := ofUInt64 (UInt64.ofNat n.natAbs)
  if n < 0 then size.neg else size

/-! ### Exact parts -/

def exponentField (x : Binary64) : Nat := x.magnitude / 0x10000000000000

/-- The integer `m` with `|x| = m * 2 ^ x.exponent`, for finite `x`. -/
def significand (x : Binary64) : Nat :=
  if x.exponentField = 0 then x.magnitude else x.magnitude % 0x10000000000000 + 0x10000000000000

def exponent (x : Binary64) : Int :=
  if x.exponentField = 0 then -1074 else x.exponentField - 1075

/-! ### The order -/

theorem isNaN_of_finite {x : Binary64} (finite : x.isFinite) : x.isNaN = false := by
  simp only [isFinite, isNaN, decide_eq_true_eq, decide_eq_false_iff_not] at finite ⊢
  omega

theorem lt_eq_of_finite {x y : Binary64} (hx : x.isFinite) (hy : y.isFinite) :
    x.lt y = decide (x.key < y.key) := by
  simp [lt, isNaN_of_finite hx, isNaN_of_finite hy]

theorem le_eq_of_finite {x y : Binary64} (hx : x.isFinite) (hy : y.isFinite) :
    x.le y = decide (x.key ≤ y.key) := by
  simp [le, isNaN_of_finite hx, isNaN_of_finite hy]

end Binary64

structure Finite where
  val : Binary64
  finite : val.isFinite = true
  deriving DecidableEq

end ServingSweep
