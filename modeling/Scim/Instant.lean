import Scim.Text.Ascii

/-!
# Date-times

A date-time is a day, a time of day and an offset from UTC: `2011-05-13T04:42:34.5-08:00`. Two of
them compare as instants. A time of `:60` is a leap second, which lies after every fraction of
second 59 and before the next minute; fractions are kept to nine digits.
-/

namespace Scim

def nanosPerSecond : Nat := 1000000000

structure Instant where
  /-- Seconds in UTC since the first day of the year 0, leap seconds left out. -/
  seconds : Int
  /-- From `nanosPerSecond` on it counts the fraction of a leap second. -/
  nanoseconds : Nat
  deriving DecidableEq

namespace Instant

def order (left right : Instant) : Ordering :=
  (compare left.seconds right.seconds).then (compare left.nanoseconds right.nanoseconds)

/-! ### The calendar -/

def isLeapYear (year : Nat) : Bool := year % 4 == 0 && (year % 100 != 0 || year % 400 == 0)

def daysInMonth (year month : Nat) : Nat :=
  match month with
  | 2 => if isLeapYear year then 29 else 28
  | 4 | 6 | 9 | 11 => 30
  | _ => 31

/-- The number of days before the first day of a year, from the year 0 on. -/
def daysBeforeYear (year : Nat) : Nat :=
  year * 365 + (year + 3) / 4 - (year + 99) / 100 + (year + 399) / 400

def daysBeforeMonth (year : Nat) : Nat → Nat
  | 0 => 0
  | 1 => 0
  | month + 2 => daysBeforeMonth year (month + 1) + daysInMonth year (month + 1)

/-! ### Reading -/

def twoDigits? : List Char → Option (Nat × List Char)
  | a :: b :: rest =>
    if a.isDigit && b.isDigit then some ((a.toNat - 48) * 10 + (b.toNat - 48), rest) else none
  | _ => none

/-- Reads a number of exactly two digits that lies in a range. -/
def field? (least greatest : Nat) (text : List Char) : Option (Nat × List Char) := do
  let (value, rest) ← twoDigits? text
  if least ≤ value ∧ value ≤ greatest then some (value, rest) else none

def mark? (isMark : Char → Bool) : List Char → Option (List Char)
  | c :: rest => if isMark c then some rest else none
  | [] => none

/-- Reads a fraction of a second in nanoseconds, if there is one. -/
def fraction? : List Char → Option (Nat × List Char)
  | '.' :: rest =>
    let digits := rest.takeWhile Char.isDigit
    let kept := (digits ++ List.replicate 8 '0').take 9
    if digits.isEmpty then none
    else some (kept.foldl (fun n c => n * 10 + (c.toNat - 48)) 0, rest.dropWhile Char.isDigit)
  | rest => some (0, rest)

def offset? : List Char → Option (Int × List Char)
  | sign :: rest => do
    if sign = 'Z' ∨ sign = 'z' then return (0, rest)
    let direction ← if sign = '+' then some 1 else if sign = '-' ∨ sign = '−' then some (-1) else none
    let (hours, rest) ← field? 0 23 rest
    let rest ← mark? (· == ':') rest
    let (minutes, rest) ← field? 0 59 rest
    return (direction * (hours * 3600 + minutes * 60 : Nat), rest)
  | [] => none

def read? (text : String) : Option Instant := do
  let (century, rest) ← twoDigits? text.toList
  let (yearOfCentury, rest) ← twoDigits? rest
  let year := century * 100 + yearOfCentury
  let rest ← mark? (· == '-') rest
  let (month, rest) ← field? 1 12 rest
  let rest ← mark? (· == '-') rest
  let (day, rest) ← field? 1 (daysInMonth year month) rest
  let rest ← mark? (fun c => c == 'T' || c == 't' || c == ' ') rest
  let (hour, rest) ← field? 0 23 rest
  let rest ← mark? (· == ':') rest
  let (minute, rest) ← field? 0 59 rest
  let rest ← mark? (· == ':') rest
  let (second, rest) ← field? 0 60 rest
  let (nanoseconds, rest) ← fraction? rest
  let (offset, rest) ← offset? rest
  if !rest.isEmpty then none
  let days := daysBeforeYear year + daysBeforeMonth year month + (day - 1)
  let timeOfDay := hour * 3600 + minute * 60 + min second 59
  return ⟨(days * 86400 + timeOfDay : Nat) - offset,
    if second = 60 then nanoseconds + nanosPerSecond else nanoseconds⟩

end Instant

end Scim
