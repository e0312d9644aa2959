import ServingSweep.Text.Digit

/-!
# Universally unique identifiers

An identifier of 128 bits is written as 32 hexadecimal digits in groups of 8, 4,
4, 4 and 12. It is read in that form, also within braces or after `urn:uuid:` in any
case, and as plain 32 digits.
-/

namespace ServingSweep

structure Uuid where
  bits : BitVec 128
  deriving DecidableEq

namespace Uuid

def grouped (digits : List Char) : List Char :=
  digits.take 8 ++ '-' :: (digits.drop 8).take 4 ++ '-' :: (digits.drop 12).take 4 ++
    '-' :: (digits.drop 16).take 4 ++ '-' :: digits.drop 20

def toString (u : Uuid) : String := String.ofList (grouped (Text.hexDigits 32 u.bits.toNat))

def ofDigits? (digits : List Char) : Option Uuid :=
  if digits.length = 32 then
    (digits.foldlM (fun acc c => (Text.hexDigit? c).map (acc * 16 + ·)) 0).map
      (fun value => ⟨BitVec.ofNat 128 value⟩)
  else none

def ofGrouped? (cs : List Char) : Option Uuid :=
  let digits := cs.filter (· ≠ '-')
  if cs.length = 36 ∧ grouped digits = cs then ofDigits? digits else none

def urn : List Char := "urn:uuid:".toList

def ofString? (s : String) : Option Uuid :=
  let cs := s.toList
  if cs.length = 32 then ofDigits? cs
  else if cs.length = 38 ∧ cs.head? = some '\x7b' ∧ cs.getLast? = some '\x7d' then
    ofGrouped? cs.tail.dropLast
  else if (cs.take urn.length).map Char.toLower = urn then ofGrouped? (cs.drop urn.length)
  else ofGrouped? cs

end Uuid

end ServingSweep
