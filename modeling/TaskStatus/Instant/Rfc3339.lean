import TaskStatus.Instant.Calendar

/-!
# Timestamps

The text of an instant as a date and a time of day in UTC. The year has at least four
digits, and a sign outside the years 0 to 9999. A fraction of a second is written with
three, six or nine digits, whichever are the fewest that are exact, and left out if it is
zero. The years `-262143` to `262142` can be written.
-/

namespace TaskStatus

/-- The decimal digits of a number, with zeros in front up to a width. -/
def paddedDigits (width n : Nat) : List Char := (Nat.toDigits 10 n).leftpad width '0'

/-- The first year that can be written. -/
def firstYear : Int := -262143

/-- The last year that can be written. -/
def lastYear : Int := 262142

/-- A year, with a sign outside the years 0 to 9999. -/
def yearChars (y : Int) : List Char :=
  let digits := paddedDigits 4 y.natAbs
  if y < 0 then '-' :: digits else if 9999 < y then '+' :: digits else digits

/-- A fraction of a second in nanoseconds. -/
def fractionChars (nanos : Nat) : List Char :=
  if nanos = 0 then []
  else if nanos % 1000000 = 0 then '.' :: paddedDigits 3 (nanos / 1000000)
  else if nanos % 1000 = 0 then '.' :: paddedDigits 6 (nanos / 1000)
  else '.' :: paddedDigits 9 nanos

namespace Instant

/-- The seconds of a day. -/
def daySeconds : Nat := 86400

/-- The date of an instant in UTC. -/
def date (t : Instant) : Date := Date.ofDays (t.seconds / daySeconds)

/-- The seconds that have passed of an instant's day in UTC. -/
def secondOfDay (t : Instant) : Nat := (t.seconds % daySeconds).toNat

/-- The characters of a timestamp. -/
def timestampChars (t : Instant) : List Char :=
  let d := t.date
  let s := t.secondOfDay
  yearChars d.year ++ '-' :: paddedDigits 2 d.month ++ '-' :: paddedDigits 2 d.day
    ++ 'T' :: paddedDigits 2 (s / 3600) ++ ':' :: paddedDigits 2 (s / 60 % 60)
    ++ ':' :: paddedDigits 2 (s % 60) ++ fractionChars t.nanos
    ++ ['+', '0', '0', ':', '0', '0']

/-- The timestamp of an instant, if its year can be written. -/
def rfc3339? (t : Instant) : Option String :=
  if firstYear ≤ t.date.year ∧ t.date.year ≤ lastYear then
    some (String.ofList t.timestampChars)
  else none

end Instant

end TaskStatus
