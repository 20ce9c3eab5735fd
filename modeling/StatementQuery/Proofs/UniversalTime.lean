import StatementQuery.Proofs.WrittenInstants

/-
  Literals and universal time.

  A literal shows local fields and a zone.  Where the fields
  are on the calendar, the instant that is read is the one
  whose seconds since 1970 are those of the fields less the
  offset of the zone, and instants compare as these seconds.
  A text is read exactly if it is a literal whose offset, if
  it is not zero, can be taken off on the calendar.

  Key definitions include:
    * `Instant.Written.Spells`
    * `Instant.Written.utc`
    * `Instant.Written.IsShiftable`
    * `Instant.IsDateTimeForm`

  Main declarations:
    * `Instant.universal_order`
    * `Instant.accepts_iff_spelled`
-/

------------------------------------------------------------
-- Universal Time
------------------------------------------------------------

namespace StatementQuery

namespace Instant

namespace Written

/- A literal is what a text is read as. -/
structure Spells (w : Written) (s : String) : Prop where
  isClear : w.IsClear
  text : w.text = s.toList

/-
  The seconds from the start of 1970 to a literal: those to its
  local fields, less the offset of its zone.
-/
def utc (w : Written) : Int :=
  w.localFields.seconds - 60 * w.zone.minutesEast

/- A text is read by the fields and the zone it spells. -/
theorem Spells.parse?_eq
    {w : Written}
    {s : String}
    (h : w.Spells s) :
    parse? s = w.localFields.shift? w.zone.minutesEast := by
  rw [parse?, ← h.text]
  exact parseChars?_text h.isClear

/- The instant of a literal on the calendar. -/
theorem Spells.parse?_eq_some_iff
    {w : Written}
    {s : String}
    (h : w.Spells s)
    (hLocal : w.localFields.OnCalendar)
    {i : Instant} :
    parse? s = some i ↔ i.OnCalendar ∧ i.seconds = w.utc := by
  rw [h.parse?_eq, shift?_eq_some_iff hLocal, utc]

end Written

/-
  Instants that are read from literals on the calendar compare
  as the universal times of the literals.  Each is found from
  its date-time, whose timestamp is the universal time.
-/
theorem universal_order
    {s t : String}
    {v w : Written}
    (hs : v.Spells s)
    (ht : w.Spells t)
    {i j : Instant}
    (hi : parse? s = some i)
    (hj : parse? t = some j)
    (hv : v.localFields.OnCalendar)
    (hw : w.localFields.OnCalendar) :
    i.order j = compare v.utc w.utc ∧
      (i = j ↔ v.utc = w.utc) ∧
      ∃ d,
        i.toDateTime? = some d ∧ ofDateTime d = i ∧
          d.timestamp = v.utc := by
  rcases (hs.parse?_eq_some_iff hv).mp hi with ⟨hiOn, hiUtc⟩
  rcases (ht.parse?_eq_some_iff hw).mp hj with ⟨hjOn, hjUtc⟩
  have hOrder := order_eq_compare_seconds hiOn hjOn
  rw [hiUtc, hjUtc] at hOrder
  refine ⟨hOrder, ?_, ?_⟩
  · rw [← order_eq_eq_iff, hOrder]
    exact Int.compare_eq_eq
  · have hTime : i.toDateTime? = some i.civil := if_pos hiOn
    have hFound := (toDateTime?_eq_some_iff.mp hTime).2.2
    exact ⟨i.civil, hTime, hFound, hiUtc⟩

/- Half past one on New Year's Day, two hours east. -/
def newYearEast : Written where
  sign := none
  year :=
    { chars := ['2', '0', '2', '0']
      allDigits := by simp [Numeral.AllDigits]
      ne_nil := by decide
      lt := by decide }
  month := 1
  day := 1
  hour := 1
  minute := 30
  second := 0
  fraction := some ['2', '5', '0']
  zone := .offset .plus 2 0

/- The evening of New Year's Eve, five hours west. -/
def newYearWest : Written where
  sign := some .plus
  year :=
    { chars := ['2', '0', '1', '9']
      allDigits := by simp [Numeral.AllDigits]
      ne_nil := by decide
      lt := by decide }
  month := 12
  day := 31
  hour := 18
  minute := 30
  second := 1
  fraction := none
  zone := .offset .minus 5 0

/- The later date is the earlier instant, by one second. -/
theorem universal_order_newYear :
    newYearEast.Spells "2020-01-01T01:30:00.250+02:00" ∧
      newYearWest.Spells "+2019-12-31T18:30:01-05:00" ∧
      newYearEast.utc = 1577835000 ∧
      newYearWest.utc = 1577835001 ∧
      (order ⟨2019, 12, 31, 23, 30, 0⟩ ⟨2019, 12, 31, 23, 30, 1⟩ =
          compare newYearEast.utc newYearWest.utc ∧
        ((⟨2019, 12, 31, 23, 30, 0⟩ : Instant) =
            ⟨2019, 12, 31, 23, 30, 1⟩ ↔
          newYearEast.utc = newYearWest.utc) ∧
        ∃ d,
          toDateTime? ⟨2019, 12, 31, 23, 30, 0⟩ = some d ∧
            ofDateTime d = ⟨2019, 12, 31, 23, 30, 0⟩ ∧
            d.timestamp = newYearEast.utc) := by
  have hEast :
      newYearEast.Spells "2020-01-01T01:30:00.250+02:00" :=
    ⟨by rintro ⟨⟩, by decide⟩
  have hWest :
      newYearWest.Spells "+2019-12-31T18:30:01-05:00" :=
    ⟨by rintro ⟨⟩, by decide⟩
  refine ⟨hEast, hWest, by decide, by decide, ?_⟩
  exact
    universal_order hEast hWest (by decide) (by decide)
      (by decide) (by decide)

end Instant

end StatementQuery

------------------------------------------------------------
-- Accepted Texts
------------------------------------------------------------

namespace StatementQuery

namespace Instant

/- Fields are shifted if the calendar has them before and after. -/
theorem isSome_shift?_iff
    {i : Instant}
    {offset : Int} :
    (i.shift? offset).isSome = true ↔
      (offset ≠ 0 →
        i.OnCalendar ∧
          ∃ j : Instant,
            j.OnCalendar ∧
              j.seconds = i.seconds - 60 * offset) := by
  by_cases hZero : offset = 0
  · simp [shift?, hZero]
  · by_cases hOn : i.OnCalendar
    · simp only [Option.isSome_iff_exists,
        shift?_eq_some_iff hOn, hOn, true_and, ne_eq, hZero,
        not_false_eq_true, forall_const]
    · simp [shift?_of_not_onCalendar hOn hZero, hOn, hZero]

namespace Written

/-
  An offset other than zero can be taken off: the local fields
  are on the calendar, and so is the instant in universal time.
-/
def IsShiftable (w : Written) : Prop :=
  w.zone.minutesEast ≠ 0 →
    w.localFields.OnCalendar ∧
      ∃ i : Instant, i.OnCalendar ∧ i.seconds = w.utc

/- A text is read if the literal it spells can be shifted. -/
theorem Spells.isSome_parse?_iff
    {w : Written}
    {s : String}
    (h : w.Spells s) :
    (parse? s).isSome = true ↔ w.IsShiftable := by
  rw [h.parse?_eq, isSome_shift?_iff]
  rfl

/- Every literal that a text spells has the same fraction. -/
theorem Spells.hasDigits_iff
    {v w : Written}
    {s : String}
    (hv : v.Spells s)
    (hw : w.Spells s) :
    v.HasDigits ↔ w.HasDigits := by
  have hFraction : v.fraction = w.fraction :=
    fraction_eq hv.isClear hw.isClear (hv.text.trans hw.text.symm)
  unfold HasDigits
  rw [hFraction]

end Written

/-
  A text in the form of a date-time: a literal that can be
  shifted, with digits alone after the point.
-/
def IsDateTimeForm (s : String) : Prop :=
  ∃ w : Written,
    w.text = s.toList ∧ w.HasDigits ∧ w.IsShiftable

/-
  A text is read exactly if it spells a literal that can be
  shifted, whatever stands between the point and the zone.
  The texts in the form of a date-time are all read, and are
  those of the texts that are read in which digits stand there.
-/
theorem accepts_iff_spelled
    (s : String) :
    ((parse? s).isSome = true ↔
        ∃ w : Written, w.Spells s ∧ w.IsShiftable) ∧
      (IsDateTimeForm s ↔
        (parse? s).isSome = true ∧
          ∀ w : Written, w.Spells s → w.HasDigits) := by
  have hAccepts :
      (parse? s).isSome = true ↔
        ∃ w : Written, w.Spells s ∧ w.IsShiftable := by
    constructor
    · intro h
      rcases Option.isSome_iff_exists.mp h with ⟨i, hParse⟩
      rcases exists_written hParse with ⟨w, hClear, hText⟩
      have hSpells : w.Spells s := ⟨hClear, hText⟩
      exact ⟨w, hSpells, hSpells.isSome_parse?_iff.mp h⟩
    · rintro ⟨w, hSpells, hShift⟩
      exact hSpells.isSome_parse?_iff.mpr hShift
  refine ⟨hAccepts, ?_⟩
  constructor
  · rintro ⟨w, hText, hDigits, hShift⟩
    have hSpells : w.Spells s := ⟨hDigits.isClear, hText⟩
    refine ⟨hAccepts.mpr ⟨w, hSpells, hShift⟩, ?_⟩
    intro v hv
    exact (hv.hasDigits_iff hSpells).mpr hDigits
  · rintro ⟨hSome, hDigits⟩
    rcases hAccepts.mp hSome with ⟨w, hSpells, hShift⟩
    exact ⟨w, hSpells.text, hDigits w hSpells, hShift⟩

/- A zone in front of a `Z` is taken for a part of the fraction. -/
example :
    parse? "2020-01-01T01:30:00.5+02:00Z" =
      some ⟨2020, 1, 1, 1, 30, 0⟩ := by
  decide

end Instant

end StatementQuery
