/-!
# Instants and the calendar

An instant is a number of whole seconds since the beginning of 1970 in UTC, which is
negative before that, and the nanoseconds behind them.

The calendar is the proleptic Gregorian one: a year is a leap year if four divides it, unless
a hundred does and four hundred does not. `Date.toDays` counts the days from the first of
January 1970 to a date, and `Date.ofDays` finds the date of such a count.

A year is found by an estimate, from the mean length of a year over four centuries, that is
off by one at most; a month by taking the lengths of the months before it off the day of
the year. `daysBeforeYear_yearOfDay_le` and `lt_daysBeforeYear_yearOfDay_succ` say that the
year found is the one in which the day lies, `totalDays_take_splitMonths` and `splitMonths_lt` the
same of the month.
-/

namespace TaskStatus

/-- An instant, to the nanosecond. -/
structure Instant where
  /-- Whole seconds since 1970-01-01T00:00:00Z. -/
  seconds : Int
  /-- Nanoseconds after these seconds. -/
  nanos : Nat
  /-- They make less than a second. -/
  nanos_lt : nanos < 1000000000 := by decide
  deriving DecidableEq, Repr

namespace Instant

/-- The beginning of a second. -/
def atSecond (s : Int) : Instant := ⟨s, 0, Nat.zero_lt_succ _⟩

/-- Nanoseconds since the beginning of 1970: an instant is later when it has more. -/
def sinceEpoch (t : Instant) : Int := t.seconds * 1000000000 + t.nanos

end Instant

/-! ### The calendar -/

/-- A date of the Gregorian calendar, in years before and after year zero alike. -/
structure Date where
  /-- The year. -/
  year : Int
  /-- The month, from one. -/
  month : Nat
  /-- The day of the month, from one. -/
  day : Nat
  deriving DecidableEq, Repr

/-- Whether a year has a leap day. -/
def isLeapYear (y : Int) : Bool := y % 4 = 0 && (y % 100 ≠ 0 || y % 400 = 0)

/-- The days of some months together. -/
def totalDays : List Nat → Nat
  | [] => 0
  | len :: lens => len + totalDays lens

/-- The lengths of the months of a year. -/
def monthLengths (y : Int) : List Nat :=
  [31, if isLeapYear y then 29 else 28, 31, 30, 31, 30, 31, 31, 30, 31, 30, 31]

/-- The days from the first day of year one to the first day of a year. -/
def daysBeforeYear (y : Int) : Int :=
  365 * (y - 1) + (y - 1) / 4 - (y - 1) / 100 + (y - 1) / 400

/-- A year has as many days as its months have together. -/
theorem daysBeforeYear_succ (y : Int) :
    daysBeforeYear (y + 1) = daysBeforeYear y + totalDays (monthLengths y) := by
  unfold daysBeforeYear monthLengths isLeapYear
  simp only [totalDays]
  split
  · next h =>
    simp at h ⊢
    omega
  · next h =>
    simp at h ⊢
    omega

/-- The days from the first day of year one to the first day of 1970. -/
def epochDay : Int := 719162

/-- The year of a day that is counted from the first day of year one. -/
def yearOfDay (n : Int) : Int :=
  let y := n * 400 / 146097 + 1
  if n < daysBeforeYear y then y - 1
  else if daysBeforeYear (y + 1) ≤ n then y + 1
  else y

/-- A day does not lie before its year. -/
theorem daysBeforeYear_yearOfDay_le (n : Int) : daysBeforeYear (yearOfDay n) ≤ n := by
  simp only [yearOfDay]
  split
  · simp only [daysBeforeYear] at *
    omega
  · split
    · assumption
    · omega

/-- A day lies before the year that follows its own. -/
theorem lt_daysBeforeYear_yearOfDay_succ (n : Int) : n < daysBeforeYear (yearOfDay n + 1) := by
  simp only [yearOfDay]
  split
  · simp only [daysBeforeYear] at *
    omega
  · split
    · simp only [daysBeforeYear] at *
      omega
    · omega

/-- The months that have passed on a day of the year, and the days since then, where the
lengths of the months are given. -/
def splitMonths : List Nat → Nat → Nat × Nat
  | [], d => (0, d)
  | len :: lens, d =>
    if d < len then (0, d)
    else
      let (m, r) := splitMonths lens (d - len)
      (m + 1, r)

/-- The months that have passed and the days since then make up the day of the year. -/
theorem totalDays_take_splitMonths (lens : List Nat) (d : Nat) :
    totalDays (lens.take (splitMonths lens d).1) + (splitMonths lens d).2 = d := by
  induction lens generalizing d with
  | nil => simp [splitMonths, totalDays]
  | cons len lens ih =>
    rw [splitMonths]
    split
    · simp [totalDays]
    · next h =>
      rw [List.take_succ_cons, totalDays, Nat.add_assoc, ih]
      omega

/-- A day of the year lies in the month that is found for it. -/
theorem splitMonths_lt {lens : List Nat} {d : Nat} (h : d < totalDays lens) :
    ∃ len, lens[(splitMonths lens d).1]? = some len ∧ (splitMonths lens d).2 < len := by
  induction lens generalizing d with
  | nil => simp [totalDays] at h
  | cons len lens ih =>
    rw [splitMonths]
    split
    · next hd => exact ⟨len, rfl, hd⟩
    · next hd =>
      rw [totalDays] at h
      rw [List.getElem?_cons_succ]
      exact ih (by omega)

namespace Date

/-- The date that lies a number of days after the first of January 1970. -/
def ofDays (days : Int) : Date :=
  let n := days + epochDay
  let y := yearOfDay n
  let (m, d) := splitMonths (monthLengths y) (n - daysBeforeYear y).toNat
  ⟨y, m + 1, d + 1⟩

/-- The days from the first of January 1970 to a date. -/
def toDays (t : Date) : Int :=
  daysBeforeYear t.year + totalDays ((monthLengths t.year).take (t.month - 1)) + (t.day - 1)
    - epochDay

end Date

end TaskStatus
