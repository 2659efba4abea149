/-!
# Days and dates

Days are counted from the first of January 1970 in the proleptic Gregorian calendar, which also has
a year 0 and years before it. The file fixes

* `CivilDate`, a year, a month and a day, and which of them exist (`CivilDate.isValid`),
* `CivilDate.toDays` and `CivilDate.ofDays`, the day number of a date and the date of a day number,
* `calendarYears`, the range of years that texts of dates are read and written in.
-/

namespace ContextualQuery

/-- A date as a year, a month and a day, both counted from one. -/
structure CivilDate where
  year : Int
  month : Nat
  day : Nat
  deriving DecidableEq, Repr

/-- Every fourth year is a leap year, except the centuries that 400 does not divide. -/
def isLeapYear (year : Int) : Bool := year % 4 == 0 && (year % 100 != 0 || year % 400 == 0)

/-- The lengths of the months of a year. -/
def monthLengths (year : Int) : List Nat :=
  [31, if isLeapYear year then 29 else 28, 31, 30, 31, 30, 31, 31, 30, 31, 30, 31]

/-- The first and the last year of the calendar. -/
def calendarYears : Int × Int := (-262143, 262142)

/-- The days from the first of January of the year 1 to that of another year. -/
def daysBeforeYear (year : Int) : Int :=
  365 * (year - 1) + (year - 1) / 4 - (year - 1) / 100 + (year - 1) / 400

/-- The day number of the first of January of the year 1, with the sign turned. -/
def epochOffset : Int := 719162

namespace CivilDate

/-- Whether the month has that day, and the calendar that year. -/
def isValid (d : CivilDate) : Bool :=
  calendarYears.1 ≤ d.year && d.year ≤ calendarYears.2 && 1 ≤ d.month && 1 ≤ d.day &&
    match (monthLengths d.year)[d.month - 1]? with
    | some length => d.day ≤ length
    | none => false

/-- The days of the year before the first of a month. -/
def daysBeforeMonth (year : Int) (month : Nat) : Nat :=
  ((monthLengths year).take (month - 1)).foldl (fun days length => days + length) 0

/-- The day number of a date. -/
def toDays (d : CivilDate) : Int :=
  daysBeforeYear d.year + daysBeforeMonth d.year d.month + d.day - 1 - epochOffset

/-- The year that holds a day, counted from the first of January of the year 1. The quotient by the
mean length of a year is that year or one of its neighbours. -/
def yearOfDay (day : Int) : Int :=
  let guess := day * 400 / 146097 + 1
  if day < daysBeforeYear guess then guess - 1
  else if daysBeforeYear (guess + 1) ≤ day then guess + 1
  else guess

/-- The month and the day of the month, from the number of days that have passed in a year whose
months have the given lengths. -/
def monthAndDay (month : Nat) : (lengths : List Nat) → (passed : Nat) → Nat × Nat
  | [], passed => (month, passed + 1)
  | length :: rest, passed =>
    if passed < length then (month, passed + 1) else monthAndDay (month + 1) rest (passed - length)

/-- The date of a day number, in whatever year. -/
def ofDays (days : Int) : CivilDate :=
  let day := days + epochOffset
  let year := yearOfDay day
  let (month, d) := monthAndDay 1 (monthLengths year) (day - daysBeforeYear year).toNat
  ⟨year, month, d⟩

/-- The date of a day number, if the calendar holds its year. -/
def ofDays? (days : Int) : Option CivilDate :=
  let d := ofDays days
  if calendarYears.1 ≤ d.year ∧ d.year ≤ calendarYears.2 then some d else none

end CivilDate

end ContextualQuery
