/-
  The proleptic Gregorian calendar, with a year zero, and
  date-times on it in universal time.

  Key definitions include:
    * `Calendar.Date`
    * `Calendar.Date.IsValid`
    * `Calendar.Date.dayNumber`
    * `Calendar.Date.addDays`
    * `Calendar.DateTime`
    * `Calendar.DateTime.timestamp`
    * `Calendar.DateTime.minusMinutes?`
-/

------------------------------------------------------------
-- Dates
------------------------------------------------------------

namespace StatementQuery

namespace Calendar

/- Whether a year has a leap day. -/
def isLeap (year : Int) : Bool :=
  year % 4 = 0 && (year % 100 ≠ 0 || year % 400 = 0)

/- The number of days of a month, zero if there is none. -/
def daysInMonth (year : Int) (month : Nat) : Nat :=
  match month with
  | 1 | 3 | 5 | 7 | 8 | 10 | 12 => 31
  | 4 | 6 | 9 | 11 => 30
  | 2 => if isLeap year then 29 else 28
  | _ => 0

/- The years that date-times cover. -/
def coversYear (year : Int) : Bool :=
  -262143 ≤ year && year ≤ 262142

/- A year, a month and a day. -/
structure Date where
  year : Int
  month : Nat
  day : Nat
deriving DecidableEq

namespace Date

/- A date is valid when the calendar has its day. -/
def IsValid (d : Date) : Prop :=
  1 ≤ d.day ∧ d.day ≤ daysInMonth d.year d.month

instance (d : Date) : Decidable d.IsValid :=
  inferInstanceAs
    (Decidable
      (1 ≤ d.day ∧ d.day ≤ daysInMonth d.year d.month))

/- The next day. -/
def next (d : Date) : Date :=
  if d.day < daysInMonth d.year d.month then
    { d with day := d.day + 1 }
  else if d.month < 12 then ⟨d.year, d.month + 1, 1⟩
  else ⟨d.year + 1, 1, 1⟩

/- The day before. -/
def previous (d : Date) : Date :=
  if 1 < d.day then { d with day := d.day - 1 }
  else if 1 < d.month then
    ⟨d.year, d.month - 1, daysInMonth d.year (d.month - 1)⟩
  else ⟨d.year - 1, 12, 31⟩

/- The date a number of days later, or earlier. -/
def addDays (d : Date) : Int → Date
| .ofNat n => n.repeat next d
| .negSucc n => (n + 1).repeat previous d

/- The days from the first day of year zero to a year. -/
def daysBeforeYear (year : Int) : Int :=
  365 * year + (year + 3) / 4 - (year + 99) / 100 +
    (year + 399) / 400

/- The days of a year before a month. -/
def daysBeforeMonth (year : Int) (month : Nat) : Nat :=
  (List.range (month - 1)).foldl
    (fun days m => days + daysInMonth year (m + 1)) 0

/- The days since the first of January 1970. -/
def dayNumber (d : Date) : Int :=
  daysBeforeYear d.year + daysBeforeMonth d.year d.month +
    d.day - 719529

end Date

end Calendar

end StatementQuery

------------------------------------------------------------
-- Date-Times
------------------------------------------------------------

namespace StatementQuery

namespace Calendar

/- A date and the seconds passed since its midnight. -/
structure DateTime where
  date : Date
  secondOfDay : Nat
deriving DecidableEq

namespace DateTime

/- The seconds of a day. -/
def secondsPerDay : Nat :=
  86400

/- The seconds since the start of 1970. -/
def timestamp (t : DateTime) : Int :=
  t.date.dayNumber * secondsPerDay + t.secondOfDay

/-
  The date-time a number of minutes earlier, if its year is
  covered.
-/
def minusMinutes?
    (t : DateTime)
    (minutes : Int) :
    Option DateTime :=
  let second := t.secondOfDay - 60 * minutes
  let date := t.date.addDays (second.fdiv secondsPerDay)
  if coversYear date.year then
    some ⟨date, (second.fmod secondsPerDay).toNat⟩
  else none

end DateTime

end Calendar

end StatementQuery
