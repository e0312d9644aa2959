import ServingSweep.Binary64
import ServingSweep.Text.Digit

/-!
# Written numerals and their values

A numeral holds the digits of a number text. `integer?` is its exact value when it
has neither point nor exponent. `real?` is its binary64 value: leading digits are
taken while they fit 64 bits, further ones only shift the exponent, and one power
of ten scales the result. Both steps round, so the value of a numeral with more
than 15 digits or a large exponent may be a neighbour of the nearest number.
-/

namespace ServingSweep

structure Numeral where
  negative : Bool
  whole : List Nat
  fraction : List Nat
  /-- Whether the exponent is negative, and its digits. -/
  exponent : Option (Bool × List Nat)

namespace Numeral

/-- Appends digits to a number while it stays below `limit`; what is left of them. -/
def gather (limit : Nat) (n : Nat) : List Nat → Nat × List Nat
  | [] => (n, [])
  | d :: ds => if n * 10 + d < limit then gather limit (n * 10 + d) ds else (n, d :: ds)

def isInteger (n : Numeral) : Bool := n.fraction.isEmpty && n.exponent.isNone

def wholeValue (n : Numeral) : Nat := Text.number n.whole

/-- The integer that is written, unless it is negative zero. -/
def integer? (n : Numeral) : Option Int :=
  if !n.isInteger then none
  else if !n.negative then some n.wholeValue
  else if n.wholeValue = 0 then none else some (-n.wholeValue)

/-- The digits that fit 64 bits, and the power of ten they stand at. -/
def leading (n : Numeral) : Nat × Int :=
  let (value, beyond) := gather (0x10000000000000000) 0 n.whole
  let (value, rest) := gather (0x10000000000000000) value n.fraction
  (value, (beyond.length : Int) - (n.fraction.length - rest.length : Nat))

/-- The written power of ten; without a value beyond 31 bits. -/
def writtenExponent (n : Numeral) : Option Int :=
  match n.exponent with
  | none => some 0
  | some (negative, digits) =>
    match gather (0x80000000) 0 digits with
    | (value, []) => some (if negative then -value else value)
    | (_, _ :: _) => none

def tenTo (e : Nat) : Float := Float.ofScientific 1 false e

/-- Division by a power of ten, in steps of at most `10 ^ 308`. -/
def shrink : Nat → Float → Nat → Float
  | 0, _, _ => 0
  | fuel + 1, x, e =>
    if e ≤ 308 then x / tenTo e
    else if Binary64.ofFloat x = ⟨0⟩ then x else shrink fuel (x / tenTo 308) (e - 308)

def scale? (x : Float) (e : Int) : Option Binary64 :=
  if e < 0 then some (.ofFloat (shrink 3 x e.natAbs))
  else if e ≤ 308 then
    let y := Binary64.ofFloat (x * tenTo e.natAbs)
    if y.isFinite then some y else none
  else if Binary64.ofFloat x = ⟨0⟩ then some ⟨0⟩ else none

/-- The binary64 value; a numeral too large for the format has none. -/
def real? (n : Numeral) : Option Binary64 :=
  let (digits, shift) := n.leading
  let size : Option Binary64 :=
    match n.writtenExponent with
    | some e => scale? (UInt64.ofNat digits).toFloat (shift + e)
    | none => if digits = 0 ∨ n.exponent.any Prod.fst then some ⟨0⟩ else none
  size.map (fun x => if n.negative then x.neg else x)

end Numeral

end ServingSweep
