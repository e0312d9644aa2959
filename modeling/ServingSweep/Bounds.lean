import ServingSweep.Series

/-!
# Bounds of a swept number

`all` counts from the least to the most, `doublings` doubles from the least while
it stays within the most. Neither passes the most, and doubling ends before it
would leave 32 bits.
-/

namespace ServingSweep

/-- The least and the most of a number, both included. -/
structure Bounds where
  least : UInt32
  most : UInt32
  deriving DecidableEq

namespace Bounds

/-- At most `steps` doublings of `n` up to `most`. -/
def doublingsFrom (most : UInt32) : Nat → UInt32 → List UInt32
  | 0, _ => []
  | steps + 1, n =>
    if n ≤ most then
      n :: (if n.toNat * 2 < 0x100000000 then doublingsFrom most steps (n * 2) else [])
    else []

/-- The least number, at least 1, and its doublings. A 32-bit word can be doubled
31 times. -/
def doublings (b : Bounds) : List UInt32 := doublingsFrom b.most 32 (max b.least 1)

def all (b : Bounds) : Series UInt32 :=
  .count UInt32.ofNat b.least.toNat (b.most.toNat + 1 - b.least.toNat)

end Bounds

end ServingSweep
