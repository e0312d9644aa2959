import ServingSweep.Text.Blank
import ServingSweep.Text.Digit

/-!
# Instants

A date and a time of day in UTC, to the nanosecond. An instant is written
`2024-01-02T03:04:05.500Z`, with 0, 3, 6 or 9 places. It is read from that form and
from looser ones: a space for the `T`, blanks between the parts, fewer digits, an
offset in hours and minutes, `UTC`. A leap second is second 60 of any minute.
-/

namespace ServingSweep

structure Date where
  year : Int
  month : Nat
  day : Nat
  deriving DecidableEq

namespace Date

def isLeapYear (year : Int) : Bool :=
  decide (year % 4 = 0 ∧ (year % 100 ≠ 0 ∨ year % 400 = 0))

def daysIn (year : Int) (month : Nat) : Nat :=
  if month = 2 then if isLeapYear year then 29 else 28
  else if month = 4 ∨ month = 6 ∨ month = 9 ∨ month = 11 then 30
  else 31

def leastYear : Int := -262143

def mostYear : Int := 262142

def isValid (d : Date) : Bool :=
  decide (leastYear ≤ d.year ∧ d.year ≤ mostYear ∧ 1 ≤ d.month ∧ d.month ≤ 12 ∧ 1 ≤ d.day ∧
    d.day ≤ daysIn d.year d.month)

def next (d : Date) : Date :=
  if d.day < daysIn d.year d.month then { d with day := d.day + 1 }
  else if d.month < 12 then { d with month := d.month + 1, day := 1 }
  else ⟨d.year + 1, 1, 1⟩

def previous (d : Date) : Date :=
  if 1 < d.day then { d with day := d.day - 1 }
  else if 1 < d.month then { d with month := d.month - 1, day := daysIn d.year (d.month - 1) }
  else ⟨d.year - 1, 12, 31⟩

end Date

structure CivilTime where
  date : Date
  hour : Nat
  minute : Nat
  /-- 60 in a leap second. -/
  second : Nat
  nanosecond : Nat
  deriving DecidableEq

def CivilTime.isValid (t : CivilTime) : Bool :=
  t.date.isValid &&
    decide (t.hour < 24 ∧ t.minute < 60 ∧ t.second ≤ 60 ∧ t.nanosecond < 1000000000)

/-- A time of the calendar, in UTC. -/
structure Instant where
  time : CivilTime
  valid : time.isValid = true
  deriving DecidableEq

namespace Instant

def epoch : Instant := ⟨⟨⟨1970, 1, 1⟩, 0, 0, 0, 0⟩, by decide⟩

/-! ### Writing -/

def padded (width n : Nat) : List Char :=
  let figures := Nat.toDigits 10 n
  List.replicate (width - figures.length) '0' ++ figures

/-- Four digits, or a sign and at least four where they do not suffice. -/
def writeYear (year : Int) : List Char :=
  if 0 ≤ year ∧ year ≤ 9999 then padded 4 year.toNat
  else (if year < 0 then '-' else '+') :: padded 4 year.natAbs

/-- The point and the places of a second; nothing for a whole one. -/
def writePlaces (nanosecond : Nat) : List Char :=
  if nanosecond = 0 then []
  else if nanosecond % 1000000 = 0 then '.' :: padded 3 (nanosecond / 1000000)
  else if nanosecond % 1000 = 0 then '.' :: padded 6 (nanosecond / 1000)
  else '.' :: padded 9 nanosecond

def toString (instant : Instant) : String :=
  let t := instant.time
  String.ofList (writeYear t.date.year ++ '-' :: padded 2 t.date.month ++ '-' ::
    padded 2 t.date.day ++ 'T' :: padded 2 t.hour ++ ':' :: padded 2 t.minute ++ ':' ::
    padded 2 t.second ++ writePlaces t.nanosecond ++ ['Z'])

/-! ### Reading -/

def number? (most : Nat) (cs : List Char) : Option (Nat × List Char) :=
  match Text.digits most cs with
  | ([], _) => none
  | (ds, rest) => some (Text.number ds, rest)

/-- A number of one or two digits after blanks. -/
def part? (cs : List Char) : Option (Nat × List Char) := number? 2 (Text.trimLeft cs)

/-- A year of up to four digits, or of any number of them after a sign. -/
def year? (cs : List Char) : Option (Int × List Char) :=
  match Text.trimLeft cs with
  | '-' :: cs => (number? cs.length cs).map (fun found => (-(found.1 : Int), found.2))
  | '+' :: cs => (number? cs.length cs).map (fun found => ((found.1 : Int), found.2))
  | cs => (number? 4 cs).map (fun found => ((found.1 : Int), found.2))

/-- What follows a character, blanks before it passed over. -/
def after? (c : Char) (cs : List Char) : Option (List Char) :=
  match Text.trimLeft cs with
  | [] => none
  | d :: cs => if c = d then some cs else none

/-- The places after a point as nanoseconds; those beyond nine are dropped. -/
def places? : List Char → Option (Nat × List Char)
  | '.' :: cs =>
    match Text.digits 9 cs with
    | ([], _) => none
    | (ds, rest) =>
      some (Text.number ds * Nat.pow 10 (9 - ds.length),
        rest.dropWhile (fun c => (Text.digit? c).isSome))
  | cs => some (0, cs)

/-- The minutes of an offset, from the two digits a text begins with. -/
def pair? : List Char → Option (Nat × List Char)
  | a :: b :: cs => do some ((← Text.digit? a) * 10 + (← Text.digit? b), cs)
  | _ => none

def signed? (sign : Int) (cs : List Char) : Option (Int × List Char) := do
  let (hours, cs) ← pair? cs
  let (minutes, cs) ← pair? (cs.dropWhile (fun c => c = ':' || Text.isBlank c))
  if minutes < 60 ∧ hours < 24 then some (sign * (hours * 60 + minutes), cs) else none

def offset? (cs : List Char) : Option (Int × List Char) :=
  let cs := Text.trimLeft cs
  if (cs.take 3).map Char.toUpper = ['U', 'T', 'C'] then some (0, cs.drop 3)
  else
    match cs with
    | 'Z' :: cs | 'z' :: cs => some (0, cs)
    | '+' :: cs => signed? 1 cs
    | '-' :: cs | '\u2212' :: cs => signed? (-1) cs
    | _ => none

def mark? : List Char → Option (List Char)
  | 'T' :: cs | 't' :: cs | ' ' :: cs => some cs
  | _ => none

def toUtc (t : CivilTime) (offset : Int) : CivilTime :=
  let minutes : Int := t.hour * 60 + t.minute - offset
  let (date, minutes) :=
    if minutes < 0 then (t.date.previous, minutes + 1440)
    else if 1440 ≤ minutes then (t.date.next, minutes - 1440)
    else (t.date, minutes)
  { t with date := date, hour := minutes.toNat / 60, minute := minutes.toNat % 60 }

def ofString? (s : String) : Option Instant := do
  let (year, cs) ← year? s.toList
  let cs ← after? '-' cs
  let (month, cs) ← part? cs
  let cs ← after? '-' cs
  let (day, cs) ← part? cs
  let cs ← mark? cs
  let (hour, cs) ← part? cs
  let cs ← after? ':' cs
  let (minute, cs) ← part? cs
  let cs ← after? ':' cs
  let (second, cs) ← part? cs
  let (nanosecond, cs) ← places? cs
  let (offset, cs) ← offset? cs
  let given : CivilTime := ⟨⟨year, month, day⟩, hour, minute, second, nanosecond⟩
  if h : (toUtc given offset).isValid = true then
    if given.isValid && (Text.trimLeft cs).isEmpty then some ⟨toUtc given offset, h⟩ else none
  else none

end Instant

end ServingSweep
