import StatementQuery.Instant.Calendar

/-
  Points in time as statements write them.

  An instant keeps its fields as written: a year of any
  64-bit value, and a month or day of zero where the precision
  stops above it.  Only some instants are date-times of the
  calendar.

  Key definitions include:
    * `Instant`
    * `Instant.order`
    * `Instant.toDateTime?`
    * `Instant.ofDateTime`
-/

------------------------------------------------------------
-- Instants
------------------------------------------------------------

namespace StatementQuery

/- A point in time in universal time, field by field. -/
structure Instant where
  year : Int64
  month : UInt8
  day : UInt8
  hour : UInt8
  minute : UInt8
  second : UInt8
deriving DecidableEq

namespace Instant

/- The fields of an instant, most significant first. -/
def fields (i : Instant) : List Int :=
  [i.year.toInt, i.month.toNat, i.day.toNat, i.hour.toNat,
    i.minute.toNat, i.second.toNat]

/- Compare two lists of fields, the first difference wins. -/
def compareFields : List Int → List Int → Ordering
| [], [] => .eq
| [], _ :: _ => .lt
| _ :: _, [] => .gt
| a :: as, b :: bs =>
    if a < b then .lt
    else if b < a then .gt
    else compareFields as bs

/- Compare two instants field by field. -/
def order (i j : Instant) : Ordering :=
  compareFields i.fields j.fields

/- Instants in ascending order. -/
def sort (instants : List Instant) : List Instant :=
  instants.mergeSort fun i j => (order i j).isLE

end Instant

end StatementQuery

------------------------------------------------------------
-- Instants On The Calendar
------------------------------------------------------------

namespace StatementQuery

namespace Instant

open Calendar

/- The date of an instant. -/
def date (i : Instant) : Date :=
  ⟨i.year.toInt, i.month.toNat, i.day.toNat⟩

/- Whether the fields of an instant name a date-time. -/
def OnCalendar (i : Instant) : Prop :=
  coversYear i.year.toInt ∧ i.date.IsValid ∧
    i.hour.toNat < 24 ∧ i.minute.toNat < 60 ∧
    i.second.toNat < 60

instance (i : Instant) : Decidable i.OnCalendar :=
  inferInstanceAs
    (Decidable
      (coversYear i.year.toInt ∧ i.date.IsValid ∧
        i.hour.toNat < 24 ∧ i.minute.toNat < 60 ∧
        i.second.toNat < 60))

/- The date-time of an instant. -/
def toDateTime? (i : Instant) : Option DateTime :=
  if i.OnCalendar then
    some
      ⟨i.date,
        i.hour.toNat * 3600 + i.minute.toNat * 60 +
          i.second.toNat⟩
  else none

/- The instant of a date-time. -/
def ofDateTime (t : DateTime) : Instant where
  year := Int64.ofInt t.date.year
  month := UInt8.ofNat t.date.month
  day := UInt8.ofNat t.date.day
  hour := UInt8.ofNat (t.secondOfDay / 3600)
  minute := UInt8.ofNat (t.secondOfDay / 60 % 60)
  second := UInt8.ofNat (t.secondOfDay % 60)

end Instant

end StatementQuery
