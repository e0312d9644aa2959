/-!
# Digits

The values of decimal and hexadecimal digits, ASCII only, and numbers written with
a fixed number of hexadecimal digits.
-/

namespace ServingSweep.Text

def digit? (c : Char) : Option Nat :=
  if '0' ≤ c ∧ c ≤ '9' then some (c.toNat - '0'.toNat) else none

/-- Either case of the letters is a digit. -/
def hexDigit? (c : Char) : Option Nat :=
  if '0' ≤ c ∧ c ≤ '9' then some (c.toNat - '0'.toNat)
  else if 'a' ≤ c ∧ c ≤ 'f' then some (c.toNat - 'a'.toNat + 10)
  else if 'A' ≤ c ∧ c ≤ 'F' then some (c.toNat - 'A'.toNat + 10)
  else none

/-- The last `n` hexadecimal digits of a number, lower case. -/
def hexDigits : Nat → Nat → List Char
  | 0, _ => []
  | n + 1, value => hexDigits n (value / 16) ++ [Nat.digitChar (value % 16)]

/-- The digits a text begins with, at most `most`, and the rest. -/
def digits : Nat → List Char → List Nat × List Char
  | 0, cs => ([], cs)
  | _ + 1, [] => ([], [])
  | most + 1, c :: cs =>
    match digit? c with
    | none => ([], c :: cs)
    | some d => let (ds, rest) := digits most cs; (d :: ds, rest)

def leadingDigits (cs : List Char) : List Nat × List Char :=
  ((cs.takeWhile (digit? · |>.isSome)).filterMap digit?, cs.dropWhile (digit? · |>.isSome))

def number (ds : List Nat) : Nat := ds.foldl (fun n d => n * 10 + d) 0

end ServingSweep.Text
