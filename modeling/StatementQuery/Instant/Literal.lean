import StatementQuery.Instant.Basic
import StatementQuery.Text.Numeral
import StatementQuery.Text.Split

/-
  The written form of instants.

  A literal is an optional sign, a year, a month and a day,
  the letter `T`, a time of day with an optional fraction of a
  second, and an optional zone.  The fraction is dropped.  A
  zone other than universal time shifts the instant, which
  then has to be a date-time of the calendar.

  Key definitions include:
    * `Instant.parse?`
    * `Instant.render`
-/

------------------------------------------------------------
-- Reading Instants
------------------------------------------------------------

namespace StatementQuery

namespace Instant

/- A sign in front of a year: whether it is `-`, and the rest. -/
def splitSign : List Char → Bool × List Char
| '-' :: cs => (true, cs)
| '+' :: cs => (false, cs)
| cs => (false, cs)

/- A field of exactly two digits, at most `limit`. -/
def readField? (limit : Nat) (cs : List Char) : Option Nat :=
  if cs.length = 2 then
    (Numeral.readNat? cs).filter (· ≤ limit)
  else none

/- A year of any number of digits that fits 64 bits. -/
def readYear? (cs : List Char) : Option Nat :=
  (Numeral.readNat? cs).filter (· < Nat.pow 2 63)

/- A year, a month and a day, each `-` apart. -/
def readDate? (cs : List Char) : Option (Nat × Nat × Nat) := do
  let (yearPart, rest) ← Text.splitFirst '-' cs
  let (monthPart, dayPart) ← Text.splitFirst '-' rest
  let year ← readYear? yearPart
  let month ← readField? 12 monthPart
  let day ← readField? 31 dayPart
  some (year, month, day)

/- The minutes that a zone lies east of universal time. -/
def readZone? (sign : Char) (cs : List Char) : Option Int := do
  let (hourPart, minutePart) ← Text.splitFirst ':' cs
  let hours ← readField? 14 hourPart
  let minutes ← readField? 59 minutePart
  let offset : Int := hours * 60 + minutes
  some (if sign = '-' then -offset else offset)

/- A time of day and the offset of its zone in minutes. -/
def splitZone? (cs : List Char) : Option (List Char × Int) :=
  match Text.dropLast? 'Z' cs with
  | some clock => some (clock, 0)
  | none =>
      match Text.splitLast (fun c => c = '+' || c = '-') cs with
      | none => some (cs, 0)
      | some (clock, sign, zone) =>
          (readZone? sign zone).map fun offset =>
            (clock, offset)

/- A time of day without the fraction of its second. -/
def dropFraction (cs : List Char) : List Char :=
  match Text.splitFirst '.' cs with
  | some (clock, _) => clock
  | none => cs

/- An hour, a minute and a second, each `:` apart. -/
def readClock? (cs : List Char) : Option (Nat × Nat × Nat) := do
  let (hourPart, rest) ← Text.splitFirst ':' cs
  let (minutePart, secondPart) ← Text.splitFirst ':' rest
  let hour ← readField? 23 hourPart
  let minute ← readField? 59 minutePart
  let second ← readField? 60 secondPart
  some (hour, minute, second)

/-
  The instant in universal time of local fields and the offset
  of their zone.
-/
def shift? (i : Instant) (offset : Int) : Option Instant :=
  if offset = 0 then some i
  else do
    let localTime ← i.toDateTime?
    let universal ← localTime.minusMinutes? offset
    some (ofDateTime universal)

/- Read an instant. -/
def parseChars? (cs : List Char) : Option Instant := do
  let (isNegative, unsigned) := splitSign cs
  let (datePart, timePart) ← Text.splitFirst 'T' unsigned
  let (year, month, day) ← readDate? datePart
  let (clockPart, offset) ← splitZone? timePart
  let (hour, minute, second) ←
    readClock? (dropFraction clockPart)
  let signedYear : Int := if isNegative then -year else year
  shift?
    { year := Int64.ofInt signedYear
      month := UInt8.ofNat month
      day := UInt8.ofNat day
      hour := UInt8.ofNat hour
      minute := UInt8.ofNat minute
      second := UInt8.ofNat second }
    offset

/- Read an instant. -/
def parse? (s : String) : Option Instant :=
  parseChars? s.toList

end Instant

end StatementQuery

------------------------------------------------------------
-- Writing Instants
------------------------------------------------------------

namespace StatementQuery

namespace Instant

/- A year of at least four digits. -/
def renderYear (year : Int) : List Char :=
  (if year < 0 then ['-'] else []) ++
    Numeral.padded 4 year.natAbs

/- A field of at least two digits. -/
def renderField (n : UInt8) : List Char :=
  Numeral.padded 2 n.toNat

/- Write an instant. -/
def renderChars (i : Instant) : List Char :=
  renderYear i.year.toInt ++
    '-' :: renderField i.month ++
    '-' :: renderField i.day ++
    'T' :: renderField i.hour ++
    ':' :: renderField i.minute ++
    ':' :: renderField i.second ++ ['Z']

/- Write an instant. -/
def render (i : Instant) : String :=
  String.ofList i.renderChars

end Instant

end StatementQuery
