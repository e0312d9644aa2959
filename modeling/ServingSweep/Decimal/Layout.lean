import ServingSweep.Decimal.Shortest

/-!
# Written numbers

`Layout.write` writes the shortest decimal of a number. A layout says which
powers of ten are written plainly and how an exponent looks. `fixed` writes a
given number of places instead, a half going to the even neighbour.
-/

namespace ServingSweep

structure Layout where
  /-- The least decade written plainly. -/
  plainFrom : Int
  /-- The first decade after that written with an exponent. -/
  plainBelow : Int
  /-- What stands before an exponent that is not negative. -/
  exponentSign : String

namespace Layout

/-- Plain from 1e-5 up to 1e16, then `1e+16`. -/
def json : Layout := ⟨-5, 16, "+"⟩

/-- Plain from 1e-4 up to 1e16, then `1e16`. -/
def listing : Layout := ⟨-4, 16, ""⟩

/-- Digits with a point and at least one digit on each side. -/
def plain (figures : List Char) (decade : Int) : List Char :=
  if decade < 0 then '0' :: '.' :: List.replicate (-decade - 1).toNat '0' ++ figures
  else
    let whole := decade.toNat + 1
    let after := figures.drop whole
    figures.take whole ++ List.replicate (whole - figures.length) '0' ++
      '.' :: (if after.isEmpty then ['0'] else after)

def scientific (layout : Layout) (figures : List Char) (decade : Int) : List Char :=
  let point := if figures.length ≤ 1 then figures else figures.take 1 ++ '.' :: figures.drop 1
  let sign := if decade < 0 then "-" else layout.exponentSign
  point ++ 'e' :: sign.toList ++ Nat.toDigits 10 decade.natAbs

/-- The text of a number that is not negative. -/
def size (layout : Layout) (x : Binary64) : List Char :=
  if x.isZero then ['0', '.', '0']
  else
    let d := Decimal.shortest x
    if layout.plainFrom ≤ d.decade ∧ d.decade < layout.plainBelow then plain d.figures d.decade
    else layout.scientific d.figures d.decade

def write (layout : Layout) (x : Binary64) : String :=
  if x.isNaN then "NaN"
  else if !x.isFinite then if x.isNegative then "-inf" else "inf"
  else String.ofList (if x.isNegative then '-' :: layout.size x else layout.size x)

end Layout

/-- `num / den` to the nearest integer, a half to the even one. -/
def roundEven (num den : Nat) : Nat :=
  let q := num / den
  let rest := 2 * (num % den)
  if rest < den then q else if den < rest then q + 1 else if q % 2 = 0 then q else q + 1

/-- The text of a finite number with the given number of places, at least one. -/
def Decimal.fixed (places : Nat) (x : Binary64) : String :=
  if x.isNaN then "NaN"
  else if !x.isFinite then if x.isNegative then "-inf" else "inf"
  else
    let units := roundEven (x.significand * Nat.pow 2 x.exponent.toNat * Nat.pow 10 places)
      (Nat.pow 2 (-x.exponent).toNat)
    let figures := Nat.toDigits 10 units
    let padded := List.replicate (places + 1 - figures.length) '0' ++ figures
    let whole := padded.take (padded.length - places)
    let after := padded.drop (padded.length - places)
    String.ofList ((if x.isNegative then ['-'] else []) ++ whole ++ '.' :: after)

end ServingSweep
