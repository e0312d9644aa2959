import ServingSweep.Binary64

/-!
# The shortest decimal that reads back

The decimals nearest to a binary64 number form an interval around it. `shortest`
takes the coarsest decimal grid with a point in that interval and, of the points
beside the number, the nearer; of two equally near the one with an even last
digit.
-/

namespace ServingSweep

/-- The decimal `digits * 10 ^ exponent`. -/
structure Decimal where
  digits : Nat
  exponent : Int
  deriving DecidableEq

namespace Decimal

def trim : Nat → Decimal → Decimal
  | 0, d => d
  | fuel + 1, d =>
    if d.digits % 10 = 0 ∧ d.digits ≠ 0 then trim fuel ⟨d.digits / 10, d.exponent + 1⟩ else d

def figures (d : Decimal) : List Char := Nat.toDigits 10 d.digits

def decade (d : Decimal) : Int := d.exponent + d.figures.length - 1

end Decimal

/-- A positive number `mid / den` and the bounds of what is rounded to it. -/
structure Rounding where
  low : Nat
  mid : Nat
  high : Nat
  den : Nat
  /-- The bounds themselves are rounded to the number. -/
  closed : Bool

namespace Rounding

/-- The decimals rounded to `x`, for `x` finite and not zero. Below a power of two
the gap to the next number is half as wide. -/
def ofBinary64 (x : Binary64) : Rounding :=
  let m := 4 * x.significand
  let narrow := x.significand = 0x10000000000000 ∧ 1 < x.exponentField
  let up := Nat.pow 2 (x.exponent - 2).toNat
  { low := (m - if narrow then 1 else 2) * up
    mid := m * up
    high := (m + 2) * up
    den := Nat.pow 2 (2 - x.exponent).toNat
    closed := x.significand % 2 == 0 }

def holds (r : Rounding) (d : Decimal) : Bool :=
  let value := d.digits * Nat.pow 10 d.exponent.toNat * r.den
  let unit := Nat.pow 10 (-d.exponent).toNat
  if r.closed then decide (r.low * unit ≤ value ∧ value ≤ r.high * unit)
  else decide (r.low * unit < value ∧ value < r.high * unit)

/-- Distance of the decimal from the number, in a unit that depends on the
exponent only. -/
def distance (r : Rounding) (d : Decimal) : Nat :=
  let value := d.digits * Nat.pow 10 d.exponent.toNat * r.den
  let mid := r.mid * Nat.pow 10 (-d.exponent).toNat
  (value - mid) + (mid - value)

/-- The least `j ≤ fuel` past `start` with `den ≤ num * 10 ^ j`. -/
def decimalShift (num den : Nat) : Nat → Nat → Nat
  | 0, j => j
  | fuel + 1, j => if den ≤ num * Nat.pow 10 j then j else decimalShift num den fuel (j + 1)

/-- The power of ten of the leading digit of `mid / den`. -/
def decade (r : Rounding) : Int :=
  if r.den ≤ r.mid then ((Nat.toDigits 10 (r.mid / r.den)).length : Int) - 1
  else -(decimalShift r.mid r.den 400 1 : Int)

def floor (r : Rounding) (exponent : Int) : Decimal :=
  ⟨r.mid * Nat.pow 10 (-exponent).toNat / (r.den * Nat.pow 10 exponent.toNat), exponent⟩

/-- Of two neighbours on one grid, the one that stands for the number. -/
def choose (r : Rounding) (below above : Decimal) : Option Decimal :=
  match r.holds below, r.holds above with
  | false, false => none
  | true, false => some below
  | false, true => some above
  | true, true =>
    if r.distance below < r.distance above then some below
    else if r.distance above < r.distance below then some above
    else if below.digits % 2 = 0 then some below else some above

/-- Tries grids of `places`, `places + 1`, … digits. -/
def search (r : Rounding) : Nat → Nat → Decimal
  | 0, places => r.floor (r.decade + 1 - places)
  | fuel + 1, places =>
    let below := r.floor (r.decade + 1 - places)
    match r.choose below ⟨below.digits + 1, below.exponent⟩ with
    | some d => d.trim 20
    | none => search r fuel (places + 1)

end Rounding

/-- The shortest decimal that reads back as `x`, for `x` finite and not zero.
Seventeen digits always suffice. -/
def Decimal.shortest (x : Binary64) : Decimal := (Rounding.ofBinary64 x).search 17 1

end ServingSweep
