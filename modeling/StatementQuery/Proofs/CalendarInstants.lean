import StatementQuery.Instant.Literal
import StatementQuery.Proofs.CivilCalendar

/-
  Instants that are date-times of the calendar.

  The fields of an instant on the calendar are a date and a
  second of its day, and are found again from them.  Comparing
  two such instants field by field compares the seconds that
  have passed, and taking off the offset of a zone gives the
  one instant that many minutes earlier.

  Key definitions include:
    * `Instant.civil`
    * `Instant.seconds`

  Main declarations:
    * `Instant.toDateTime?_eq_some_iff`
    * `Instant.order_eq_compare_seconds`
    * `Instant.shift?_eq_some_iff`
-/

------------------------------------------------------------
-- Date-Times Of Instants
------------------------------------------------------------

namespace StatementQuery

namespace Instant

open Calendar

/- The fields of an instant as a date and a second. -/
def civil (i : Instant) : DateTime :=
  ⟨i.date,
    i.hour.toNat * 3600 + i.minute.toNat * 60 + i.second.toNat⟩

/- The seconds from the start of 1970 to an instant. -/
def seconds (i : Instant) : Int :=
  i.civil.timestamp

/- The fields on the calendar are a date-time. -/
theorem OnCalendar.isCivil
    {i : Instant}
    (h : i.OnCalendar) :
    i.civil.IsCivil := by
  rcases h with ⟨-, hDate, hHour, hMinute, hSecond⟩
  refine ⟨hDate, ?_⟩
  simp only [civil, DateTime.secondsPerDay]
  omega

/- The fields on the calendar are found from their date-time. -/
theorem OnCalendar.ofDateTime_civil
    {i : Instant}
    (h : i.OnCalendar) :
    ofDateTime i.civil = i := by
  rcases i with ⟨year, month, day, hour, minute, second⟩
  rcases h with ⟨-, -, hHour, hMinute, hSecond⟩
  simp only at hHour hMinute hSecond
  have hHours :
      (hour.toNat * 3600 + minute.toNat * 60 + second.toNat) /
          3600 =
        hour.toNat := by
    omega
  have hMinutes :
      (hour.toNat * 3600 + minute.toNat * 60 + second.toNat) /
          60 % 60 =
        minute.toNat := by
    omega
  have hSeconds :
      (hour.toNat * 3600 + minute.toNat * 60 + second.toNat) %
          60 =
        second.toNat := by
    omega
  simp only [ofDateTime, civil, date, hHours, hMinutes, hSeconds,
    Int64.ofInt_toInt, UInt8.ofNat_toNat]

/- A number of two digits fits into a field. -/
theorem toNat_ofNat_of_lt_hundred
    {n : Nat}
    (h : n < 100) :
    (UInt8.ofNat n).toNat = n :=
  UInt8.toNat_ofNat_of_lt' (Nat.lt_trans h (by decide))

/- A covered year fits into its field. -/
theorem toInt_ofInt_of_coversYear
    {year : Int}
    (h : coversYear year = true) :
    (Int64.ofInt year).toInt = year := by
  simp only [coversYear, Bool.and_eq_true,
    decide_eq_true_eq] at h
  exact Int64.toInt_ofInt_of_le (by omega) (by omega)

/- A date-time is found from the fields that are made of it. -/
theorem civil_ofDateTime
    {t : DateTime}
    (h : t.IsCivil)
    (hYear : coversYear t.date.year = true) :
    (ofDateTime t).civil = t := by
  rcases t with ⟨⟨year, month, day⟩, second⟩
  rcases h with ⟨hDate, hSecond⟩
  have hMonth := hDate.isMonth
  have hDay := hDate.day_le
  simp only [DateTime.secondsPerDay] at hSecond hMonth hDay
  have hSum :
      second / 3600 * 3600 + second / 60 % 60 * 60 +
          second % 60 =
        second := by
    omega
  simp only [civil, date, ofDateTime,
    toInt_ofInt_of_coversYear hYear]
  rw [toNat_ofNat_of_lt_hundred (by omega),
    toNat_ofNat_of_lt_hundred (by omega),
    toNat_ofNat_of_lt_hundred (by omega),
    toNat_ofNat_of_lt_hundred (by omega),
    toNat_ofNat_of_lt_hundred (by omega), hSum]

/- The fields made of a date-time are on the calendar. -/
theorem onCalendar_ofDateTime
    {t : DateTime}
    (h : t.IsCivil)
    (hYear : coversYear t.date.year = true) :
    (ofDateTime t).OnCalendar := by
  have hDate : (ofDateTime t).date = t.date :=
    congrArg DateTime.date (civil_ofDateTime h hYear)
  have hSecond := h.second
  simp only [DateTime.secondsPerDay] at hSecond
  refine ⟨?_, ?_, ?_, ?_, ?_⟩
  · have hField :
        (ofDateTime t).year.toInt = t.date.year :=
      congrArg Date.year hDate
    rw [hField]
    exact hYear
  · rw [hDate]
    exact h.date
  · simp only [ofDateTime]
    rw [toNat_ofNat_of_lt_hundred (by omega)]
    omega
  · simp only [ofDateTime]
    rw [toNat_ofNat_of_lt_hundred (by omega)]
    omega
  · simp only [ofDateTime]
    rw [toNat_ofNat_of_lt_hundred (by omega)]
    omega

/- An instant's date-time is the one whose fields it has. -/
theorem toDateTime?_eq_some_iff
    {i : Instant}
    {t : DateTime} :
    i.toDateTime? = some t ↔
      t.IsCivil ∧ coversYear t.date.year = true ∧
        ofDateTime t = i := by
  constructor
  · intro h
    unfold toDateTime? at h
    split at h
    next hOn =>
      obtain rfl := Option.some.inj h
      exact ⟨hOn.isCivil, hOn.1, hOn.ofDateTime_civil⟩
    next => cases h
  · rintro ⟨hCivil, hYear, rfl⟩
    have hOn := onCalendar_ofDateTime hCivil hYear
    have hTime : (ofDateTime t).toDateTime? =
        some (ofDateTime t).civil :=
      if_pos hOn
    rw [hTime, civil_ofDateTime hCivil hYear]

end Instant

end StatementQuery

------------------------------------------------------------
-- The Order Of Instants
------------------------------------------------------------

namespace StatementQuery

namespace Instant

open Calendar

/- The first difference decides. -/
theorem compareFields_cons_eq_lt
    {a b : Int}
    {as bs : List Int} :
    compareFields (a :: as) (b :: bs) = .lt ↔
      a < b ∨ a = b ∧ compareFields as bs = .lt := by
  rcases Int.lt_trichotomy a b with hLt | hEq | hGt
  · simp [compareFields, hLt]
  · simp [compareFields, hEq]
  · have hNot : ¬ a < b := by omega
    have hNe : a ≠ b := by omega
    simp [compareFields, hGt, hNot, hNe]

/- Fields are the same only if none differs. -/
theorem eq_of_compareFields
    {as bs : List Int}
    (h : compareFields as bs = .eq) :
    as = bs := by
  induction as, bs using compareFields.induct with
  | case1 => rfl
  | case2 => simp [compareFields] at h
  | case3 => simp [compareFields] at h
  | case4 a as b bs hLt => simp [compareFields, hLt] at h
  | case5 a as b bs hNot hGt =>
      simp [compareFields, hNot, hGt] at h
  | case6 a as b bs hNot hNotGt ih =>
      have hEq : a = b := by omega
      simp only [compareFields, if_neg hNot,
        if_neg hNotGt] at h
      rw [hEq, ih h]

/- Comparing the other way round turns the result round. -/
theorem swap_compareFields
    (as bs : List Int) :
    (compareFields as bs).swap = compareFields bs as := by
  induction as, bs using compareFields.induct with
  | case1 => rfl
  | case2 => rfl
  | case3 => rfl
  | case4 a as b bs hLt =>
      have hNot : ¬ b < a := by omega
      simp [compareFields, hLt, hNot]
  | case5 a as b bs hNot hGt =>
      simp [compareFields, hNot, hGt]
  | case6 a as b bs hNot hNotGt ih =>
      simp [compareFields, hNot, hNotGt, ih]

/- Instants are told apart by their fields. -/
theorem eq_of_fields_eq
    {i j : Instant}
    (h : i.fields = j.fields) :
    i = j := by
  rcases i with ⟨year, month, day, hour, minute, second⟩
  rcases j with ⟨year', month', day', hour', minute', second'⟩
  simpa [fields, Int64.toInt_inj, UInt8.toNat_inj] using h

/- Only the same instants compare equal. -/
theorem order_eq_eq_iff
    {i j : Instant} :
    i.order j = .eq ↔ i = j := by
  constructor
  · intro h
    exact eq_of_fields_eq (eq_of_compareFields h)
  · rintro rfl
    have hSwap := swap_compareFields i.fields i.fields
    unfold order
    cases hOrder : compareFields i.fields i.fields with
    | eq => rfl
    | lt => simp [hOrder] at hSwap
    | gt => simp [hOrder] at hSwap

/- An earlier instant has fewer seconds. -/
theorem seconds_lt_of_order
    {i j : Instant}
    (hi : i.OnCalendar)
    (hj : j.OnCalendar)
    (h : i.order j = .lt) :
    i.seconds < j.seconds := by
  have hiSecond := hi.isCivil.second
  have hjSecond := hj.isCivil.second
  have hDate := Date.dayNumber_lt_of_before hi.2.1 hj.2.1
  rcases hi with ⟨-, -, -, hiMinute, hiClock⟩
  rcases hj with ⟨-, -, -, hjMinute, hjClock⟩
  simp only [seconds, DateTime.timestamp, civil,
    DateTime.secondsPerDay] at hiSecond hjSecond ⊢
  have hEmpty : compareFields [] [] ≠ .lt := by decide
  simp only [order, fields, compareFields_cons_eq_lt,
    Int.ofNat_lt, Int.ofNat_inj, hEmpty, and_false,
    or_false] at h
  -- the difference is in the date, or in the time of the day
  by_cases hSame : i.date = j.date
  · rw [hSame]
    simp only [date, Date.mk.injEq] at hSame
    omega
  · have hBefore : i.date.Before j.date := by
      simp only [date, Date.mk.injEq] at hSame
      simp only [Date.Before, date]
      omega
    have hNumber := hDate hBefore
    omega

/-
  Instants on the calendar compare as the seconds that have
  passed.
-/
theorem order_eq_compare_seconds
    {i j : Instant}
    (hi : i.OnCalendar)
    (hj : j.OnCalendar) :
    i.order j = compare i.seconds j.seconds := by
  cases hOrder : i.order j with
  | lt =>
      have hLt := seconds_lt_of_order hi hj hOrder
      exact (Int.compare_eq_lt.mpr hLt).symm
  | eq =>
      obtain rfl := order_eq_eq_iff.mp hOrder
      exact (Int.compare_eq_eq.mpr rfl).symm
  | gt =>
      have hSwap : j.order i = .lt := by
        rw [order, ← swap_compareFields]
        rw [order] at hOrder
        rw [hOrder]
        rfl
      have hLt := seconds_lt_of_order hj hi hSwap
      exact (Int.compare_eq_gt.mpr hLt).symm

/- Instants on the calendar are told apart by their seconds. -/
theorem eq_of_seconds_eq
    {i j : Instant}
    (hi : i.OnCalendar)
    (hj : j.OnCalendar)
    (h : i.seconds = j.seconds) :
    i = j := by
  have hCompare := order_eq_compare_seconds hi hj
  rw [Int.compare_eq_eq.mpr h] at hCompare
  exact order_eq_eq_iff.mp hCompare

end Instant

end StatementQuery

------------------------------------------------------------
-- Zones
------------------------------------------------------------

namespace StatementQuery

namespace Instant

open Calendar

/- Fields that are not on the calendar are in no other zone. -/
theorem shift?_of_not_onCalendar
    {i : Instant}
    (h : ¬ i.OnCalendar)
    {offset : Int}
    (hOffset : offset ≠ 0) :
    i.shift? offset = none := by
  have hTime : i.toDateTime? = none := if_neg h
  simp [shift?, hOffset, hTime]

/-
  The instant of fields in a zone is the one on the calendar
  that many minutes earlier, if there is one.
-/
theorem shift?_eq_some_iff
    {i j : Instant}
    (h : i.OnCalendar)
    {offset : Int} :
    i.shift? offset = some j ↔
      j.OnCalendar ∧ j.seconds = i.seconds - 60 * offset := by
  by_cases hZero : offset = 0
  · subst hZero
    simp only [shift?, if_pos, Option.some.injEq]
    constructor
    · rintro rfl
      exact ⟨h, by omega⟩
    · rintro ⟨hj, hSeconds⟩
      exact eq_of_seconds_eq h hj (by omega)
  · have hTime : i.toDateTime? = some i.civil := if_pos h
    simp only [shift?, if_neg hZero, hTime, Option.bind_eq_bind,
      Option.bind_some, Option.bind_eq_some_iff,
      DateTime.minusMinutes?_eq_some_iff h.isCivil,
      Option.some.injEq]
    constructor
    · rintro ⟨t, ⟨hCivil, hYear, hSeconds⟩, rfl⟩
      refine ⟨onCalendar_ofDateTime hCivil hYear, ?_⟩
      rw [seconds, civil_ofDateTime hCivil hYear, hSeconds]
      rfl
    · rintro ⟨hj, hSeconds⟩
      exact
        ⟨j.civil, ⟨hj.isCivil, hj.1, hSeconds⟩,
          hj.ofDateTime_civil⟩

end Instant

end StatementQuery
