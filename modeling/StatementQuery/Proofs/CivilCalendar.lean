import Mathlib.Tactic.IntervalCases
import StatementQuery.Instant.Calendar

/-
  Counting the days of the calendar.

  The number of a day is zero on the first day of 1970 and
  grows by one from each day to the next, over the ends of
  months, years and leap years.  Dates in the order of their
  years, months and days are therefore in the order of their
  numbers, and seconds can be counted through days.

  Key definitions include:
    * `Calendar.Date.Before`
    * `Calendar.DateTime.IsCivil`

  Main declarations:
    * `Calendar.Date.IsValid.addDays`
    * `Calendar.Date.dayNumber_lt_of_before`
    * `Calendar.DateTime.eq_of_timestamp_eq`
    * `Calendar.DateTime.minusMinutes?_eq_some_iff`
-/

------------------------------------------------------------
-- Months And Years
------------------------------------------------------------

namespace StatementQuery

namespace Calendar

/- The leap days of a year. -/
def leapDays (year : Int) : Nat :=
  if isLeap year then 1 else 0

/- Leap years are counted in fours, hundreds, four hundreds. -/
theorem isLeap_iff
    {year : Int} :
    isLeap year = true ↔
      year % 4 = 0 ∧ (year % 100 ≠ 0 ∨ year % 400 = 0) := by
  simp [isLeap]

/- Only the twelve months have days. -/
theorem isMonth_of_daysInMonth_pos
    {year : Int}
    {month : Nat}
    (h : 0 < daysInMonth year month) :
    1 ≤ month ∧ month ≤ 12 := by
  unfold daysInMonth at h
  split at h <;> omega

/- A month has between 28 and 31 days. -/
theorem daysInMonth_bounds
    (year : Int)
    (month : Nat)
    (hFirst : 1 ≤ month)
    (hLast : month ≤ 12) :
    28 ≤ daysInMonth year month ∧
      daysInMonth year month ≤ 31 := by
  by_cases hLeap : isLeap year
  · interval_cases month <;> simp [daysInMonth, hLeap]
  · interval_cases month <;> simp [daysInMonth, hLeap]

namespace Date

/- A year is followed by the next after its days. -/
theorem daysBeforeYear_succ
    (year : Int) :
    daysBeforeYear (year + 1) =
      daysBeforeYear year + 365 + leapDays year := by
  unfold daysBeforeYear leapDays
  split
  next hLeap =>
    rw [isLeap_iff] at hLeap
    omega
  next hLeap =>
    rw [isLeap_iff] at hLeap
    omega

/- Years that come later have more days before them. -/
theorem daysBeforeYear_mono
    (year later : Int)
    (h : year ≤ later) :
    daysBeforeYear year ≤ daysBeforeYear later := by
  unfold daysBeforeYear
  omega

/- No day of a year is before its first month. -/
@[simp] theorem daysBeforeMonth_one
    (year : Int) :
    daysBeforeMonth year 1 = 0 :=
  rfl

/- A month is followed by the next after its days. -/
theorem daysBeforeMonth_succ
    (year : Int)
    (month : Nat)
    (h : 1 ≤ month) :
    daysBeforeMonth year (month + 1) =
      daysBeforeMonth year month + daysInMonth year month := by
  have hPrevious : month + 1 - 1 = month - 1 + 1 := by omega
  have hMonth : month - 1 + 1 = month := by omega
  unfold daysBeforeMonth
  rw [hPrevious, List.range_succ, List.foldl_append]
  simp only [List.foldl_cons, List.foldl_nil, hMonth]

/- Months that come later have more days before them. -/
theorem daysBeforeMonth_mono
    (year : Int)
    (month later : Nat)
    (hFirst : 1 ≤ month)
    (h : month ≤ later) :
    daysBeforeMonth year month ≤ daysBeforeMonth year later := by
  obtain ⟨k, rfl⟩ := Nat.exists_eq_add_of_le h
  induction k with
  | zero => exact Nat.le_refl _
  | succ k ih =>
      have hSucc :=
        daysBeforeMonth_succ year (month + k) (by omega)
      have hBefore := ih (by omega)
      rw [← Nat.add_assoc, hSucc]
      omega

/- The days of the twelve months are those of the year. -/
theorem daysBeforeMonth_thirteen
    (year : Int) :
    daysBeforeMonth year 13 = 365 + leapDays year := by
  unfold daysBeforeMonth leapDays
  by_cases hLeap : isLeap year
  · simp [List.range_succ, daysInMonth, hLeap]
  · simp [List.range_succ, daysInMonth, hLeap]

end Date

end Calendar

end StatementQuery

------------------------------------------------------------
-- Days
------------------------------------------------------------

namespace StatementQuery

namespace Calendar

namespace Date

/- The month of a valid date is one of the twelve. -/
theorem IsValid.isMonth
    {d : Date}
    (h : d.IsValid) :
    1 ≤ d.month ∧ d.month ≤ 12 :=
  isMonth_of_daysInMonth_pos (Nat.lt_of_lt_of_le h.1 h.2)

/- A valid date has a day of at most 31. -/
theorem IsValid.day_le
    {d : Date}
    (h : d.IsValid) :
    d.day ≤ 31 :=
  Nat.le_trans h.2
    (daysInMonth_bounds d.year d.month h.isMonth.1 h.isMonth.2).2

/- The next day is a date, and its number is one more. -/
theorem IsValid.next
    {d : Date}
    (h : d.IsValid) :
    d.next.IsValid ∧ d.next.dayNumber = d.dayNumber + 1 := by
  rcases d with ⟨year, month, day⟩
  have hMonth := h.isMonth
  rcases h with ⟨hFirst, hLast⟩
  simp only at hFirst hLast hMonth
  unfold Date.next
  by_cases hDay : day < daysInMonth year month
  · simp only [if_pos hDay]
    refine ⟨⟨by simp, hDay⟩, ?_⟩
    simp only [dayNumber]
    omega
  · have hEnd : day = daysInMonth year month := by omega
    have hSucc := daysBeforeMonth_succ year month hMonth.1
    simp only [if_neg hDay]
    by_cases hYear : month < 12
    · have hNext :=
        daysInMonth_bounds year (month + 1) (by omega) (by omega)
      simp only [if_pos hYear]
      refine ⟨⟨Nat.le_refl 1, by simp only; omega⟩, ?_⟩
      simp only [dayNumber]
      omega
    · obtain rfl : month = 12 := by omega
      have hWhole :
          daysBeforeMonth year (12 + 1) = 365 + leapDays year :=
        daysBeforeMonth_thirteen year
      have hYears := daysBeforeYear_succ year
      have hNext :=
        daysInMonth_bounds (year + 1) 1 (by omega) (by omega)
      simp only [if_neg hYear]
      refine ⟨⟨Nat.le_refl 1, by simp only; omega⟩, ?_⟩
      simp only [dayNumber, daysBeforeMonth_one]
      omega

/- The day before is a date, and its number is one less. -/
theorem IsValid.previous
    {d : Date}
    (h : d.IsValid) :
    d.previous.IsValid ∧
      d.previous.dayNumber = d.dayNumber - 1 := by
  rcases d with ⟨year, month, day⟩
  have hMonth := h.isMonth
  rcases h with ⟨hFirst, hLast⟩
  simp only at hFirst hLast hMonth
  unfold Date.previous
  by_cases hDay : 1 < day
  · simp only [if_pos hDay]
    refine
      ⟨⟨by simp only; omega, by simp only; omega⟩, ?_⟩
    simp only [dayNumber]
    omega
  · obtain rfl : day = 1 := by omega
    simp only [if_neg hDay]
    by_cases hYear : 1 < month
    · have hPrevious :=
        daysInMonth_bounds year (month - 1) (by omega) (by omega)
      have hSucc :=
        daysBeforeMonth_succ year (month - 1) (by omega)
      rw [Nat.sub_add_cancel hMonth.1] at hSucc
      simp only [if_pos hYear]
      refine ⟨⟨by simp only; omega, Nat.le_refl _⟩, ?_⟩
      simp only [dayNumber]
      omega
    · obtain rfl : month = 1 := by omega
      have hYears := daysBeforeYear_succ (year - 1)
      have hWhole :
          daysBeforeMonth (year - 1) (12 + 1) =
            365 + leapDays (year - 1) :=
        daysBeforeMonth_thirteen (year - 1)
      have hSucc :=
        daysBeforeMonth_succ (year - 1) 12 (by omega)
      have hDecember : daysInMonth (year - 1) 12 = 31 := rfl
      rw [Int.sub_add_cancel] at hYears
      simp only [if_neg hYear]
      refine ⟨⟨by simp, by simp [hDecember]⟩, ?_⟩
      simp only [dayNumber, daysBeforeMonth_one]
      omega

/- Steps of one day each add up. -/
theorem repeat_step
    {step : Date → Date}
    {days : Int}
    (hStep :
      ∀ d : Date, d.IsValid →
        (step d).IsValid ∧
          (step d).dayNumber = d.dayNumber + days)
    {d : Date}
    (h : d.IsValid)
    (n : Nat) :
    (n.repeat step d).IsValid ∧
      (n.repeat step d).dayNumber = d.dayNumber + n * days := by
  induction n with
  | zero => exact ⟨h, by simp [Nat.repeat]⟩
  | succ n ih =>
      rcases hStep _ ih.1 with ⟨hValid, hNumber⟩
      refine ⟨hValid, ?_⟩
      have hDays :
          ((n + 1 : Nat) : Int) * days = n * days + days := by
        rw [Int.natCast_add, Int.add_mul]
        simp
      rw [Nat.repeat, hNumber, ih.2, hDays]
      omega

/- Adding days gives a date with the number that many later. -/
theorem IsValid.addDays
    {d : Date}
    (h : d.IsValid)
    (n : Int) :
    (d.addDays n).IsValid ∧
      (d.addDays n).dayNumber = d.dayNumber + n := by
  cases n with
  | ofNat n =>
      have hSteps := repeat_step (fun d => IsValid.next) h n
      simpa [Date.addDays] using hSteps
  | negSucc n =>
      have hStep :
          ∀ d : Date, d.IsValid →
            d.previous.IsValid ∧
              d.previous.dayNumber = d.dayNumber + -1 :=
        fun d => IsValid.previous
      have hSteps := repeat_step hStep h (n + 1)
      refine ⟨hSteps.1, ?_⟩
      have hNumber := hSteps.2
      simp only [Date.addDays]
      omega

end Date

end Calendar

end StatementQuery

------------------------------------------------------------
-- The Order Of Dates
------------------------------------------------------------

namespace StatementQuery

namespace Calendar

namespace Date

/- A date comes before another, by year, month and day. -/
def Before (d e : Date) : Prop :=
  d.year < e.year ∨
    d.year = e.year ∧
      (d.month < e.month ∨ d.month = e.month ∧ d.day < e.day)

/- Of two different dates, one is before the other. -/
theorem before_trichotomy
    (d e : Date) :
    d.Before e ∨ d = e ∨ e.Before d := by
  rcases d with ⟨year, month, day⟩
  rcases e with ⟨year', month', day'⟩
  simp only [Before, mk.injEq]
  omega

/- A date is among the days of its year. -/
theorem IsValid.dayOfYear
    {d : Date}
    (h : d.IsValid) :
    1 ≤ daysBeforeMonth d.year d.month + d.day ∧
      daysBeforeMonth d.year d.month + d.day ≤
        365 + leapDays d.year := by
  have hMonth := h.isMonth
  have hSucc := daysBeforeMonth_succ d.year d.month hMonth.1
  have hWhole := daysBeforeMonth_thirteen d.year
  have hMono :=
    daysBeforeMonth_mono d.year (d.month + 1) 13
      (by omega) (by omega)
  rcases h with ⟨hFirst, hLast⟩
  omega

/- Dates are in the order of their numbers. -/
theorem dayNumber_lt_of_before
    {d e : Date}
    (hd : d.IsValid)
    (he : e.IsValid)
    (h : d.Before e) :
    d.dayNumber < e.dayNumber := by
  unfold dayNumber
  rcases h with hYear | ⟨hYear, hMonth | ⟨hMonth, hDay⟩⟩
  · have hSucc := daysBeforeYear_succ d.year
    have hMono :=
      daysBeforeYear_mono (d.year + 1) e.year (by omega)
    have hdDay := hd.dayOfYear
    have heDay := he.dayOfYear
    omega
  · have hSucc := daysBeforeMonth_succ d.year d.month hd.isMonth.1
    have hMono :=
      daysBeforeMonth_mono d.year (d.month + 1) e.month
        (by omega) (by omega)
    have hdDay := hd.2
    have heDay := he.1
    rw [← hYear]
    omega
  · rw [← hYear, ← hMonth]
    omega

/- Valid dates are told apart by their numbers. -/
theorem eq_of_dayNumber_eq
    {d e : Date}
    (hd : d.IsValid)
    (he : e.IsValid)
    (h : d.dayNumber = e.dayNumber) :
    d = e := by
  rcases before_trichotomy d e with hBefore | hEq | hBefore
  · have hLt := dayNumber_lt_of_before hd he hBefore
    omega
  · exact hEq
  · have hLt := dayNumber_lt_of_before he hd hBefore
    omega

end Date

end Calendar

end StatementQuery

------------------------------------------------------------
-- Seconds
------------------------------------------------------------

namespace StatementQuery

namespace Calendar

namespace DateTime

/- A day of the calendar and a second of that day. -/
structure IsCivil (t : DateTime) : Prop where
  date : t.date.IsValid
  second : t.secondOfDay < secondsPerDay

/- Date-times are told apart by their seconds since 1970. -/
theorem eq_of_timestamp_eq
    {t u : DateTime}
    (ht : t.IsCivil)
    (hu : u.IsCivil)
    (h : t.timestamp = u.timestamp) :
    t = u := by
  rcases t with ⟨date, second⟩
  rcases u with ⟨date', second'⟩
  rcases ht with ⟨hDate, hSecond⟩
  rcases hu with ⟨hDate', hSecond'⟩
  simp only [timestamp, secondsPerDay] at h hSecond hSecond'
  have hNumber : date.dayNumber = date'.dayNumber := by omega
  have hSeconds : second = second' := by omega
  have hDates : date = date' :=
    Date.eq_of_dayNumber_eq hDate hDate' hNumber
  rw [hDates, hSeconds]

/- The date-time a number of minutes earlier, in any year. -/
def earlier (t : DateTime) (minutes : Int) : DateTime :=
  let second := t.secondOfDay - 60 * minutes
  ⟨t.date.addDays (second.fdiv secondsPerDay),
    (second.fmod secondsPerDay).toNat⟩

/- The minutes are taken off if the year is covered. -/
theorem minusMinutes?_eq
    (t : DateTime)
    (minutes : Int) :
    t.minusMinutes? minutes =
      if coversYear (t.earlier minutes).date.year then
        some (t.earlier minutes)
      else none :=
  rfl

/- Whole days go to the date and the rest to the second. -/
theorem IsCivil.earlier
    {t : DateTime}
    (h : t.IsCivil)
    (minutes : Int) :
    (t.earlier minutes).IsCivil ∧
      (t.earlier minutes).timestamp =
        t.timestamp - 60 * minutes := by
  have hDays :=
    h.date.addDays
      ((t.secondOfDay - 60 * minutes : Int).fdiv secondsPerDay)
  have hDiv :
      (t.secondOfDay - 60 * minutes : Int).fdiv secondsPerDay =
        (t.secondOfDay - 60 * minutes) / 86400 :=
    Int.fdiv_eq_ediv_of_nonneg _ (by decide)
  have hMod :
      (t.secondOfDay - 60 * minutes : Int).fmod secondsPerDay =
        (t.secondOfDay - 60 * minutes) % 86400 :=
    Int.fmod_eq_emod_of_nonneg _ (by decide)
  refine ⟨⟨hDays.1, ?_⟩, ?_⟩
  · simp only [DateTime.earlier, hMod]
    simp only [secondsPerDay]
    omega
  · simp only [hDiv] at hDays
    simp only [timestamp, DateTime.earlier, hDiv, hMod, hDays.2]
    simp only [secondsPerDay]
    omega

/-
  Taking minutes off gives the date-time of a covered year
  with as many seconds less, if there is one.
-/
theorem minusMinutes?_eq_some_iff
    {t u : DateTime}
    (h : t.IsCivil)
    {minutes : Int} :
    t.minusMinutes? minutes = some u ↔
      u.IsCivil ∧ coversYear u.date.year = true ∧
        u.timestamp = t.timestamp - 60 * minutes := by
  rcases h.earlier minutes with ⟨hCivil, hStamp⟩
  rw [minusMinutes?_eq]
  constructor
  · intro hSome
    split at hSome
    next hYear =>
      obtain rfl := Option.some.inj hSome
      exact ⟨hCivil, hYear, hStamp⟩
    next => cases hSome
  · rintro ⟨hu, hYear, hSeconds⟩
    have hEq : t.earlier minutes = u :=
      eq_of_timestamp_eq hCivil hu (hStamp.trans hSeconds.symm)
    rw [hEq, if_pos hYear]

end DateTime

end Calendar

end StatementQuery
