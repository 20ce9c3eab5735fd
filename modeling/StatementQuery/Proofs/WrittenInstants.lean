import StatementQuery.Proofs.CalendarInstants
import StatementQuery.Proofs.Literals

/-
  The texts that are read as instants.

  A literal is cut at the first `T`, at the first separators
  of its date and of its time of day, at the first point and
  at the last sign.  A text from which an instant is read is
  put together from the parts that are cut out of it.  What
  stands between the point and the zone is never looked at;
  without a zone it only must not end like one.

  Key definitions include:
    * `Instant.Written`
    * `Instant.Written.text`
    * `Instant.Written.IsClear`

  Main declarations:
    * `Instant.Written.parseChars?_text`
    * `Instant.exists_written`
    * `Instant.Written.fraction_eq`
    * `Instant.reads_back_iff_writable`
-/

------------------------------------------------------------
-- Literals And Their Parts
------------------------------------------------------------

namespace StatementQuery

namespace Instant

open Numeral

/- A sign in front of a year or of a zone. -/
inductive Sign where
| plus
| minus
deriving DecidableEq

namespace Sign

/- The character of a sign. -/
def char : Sign → Char
| .plus => '+'
| .minus => '-'

/- A number with a sign in front. -/
def apply : Sign → Int → Int
| .plus, n => n
| .minus, n => -n

end Sign

/- One or more digits, the number of which fits 64 bits. -/
structure YearDigits where
  chars : List Char
  allDigits : AllDigits chars
  ne_nil : chars ≠ []
  lt : value chars < 2 ^ 63

/- The zone of a literal, if one is written. -/
inductive Zone where
| unmarked
| universal
| offset (sign : Sign) (hours : Fin 15) (minutes : Fin 60)

namespace Zone

/- The text of a zone. -/
def text : Zone → List Char
| .unmarked => []
| .universal => ['Z']
| .offset sign hours minutes =>
    sign.char :: (padded 2 hours ++ ':' :: padded 2 minutes)

/- The minutes that a zone lies east of universal time. -/
def minutesEast : Zone → Int
| .unmarked => 0
| .universal => 0
| .offset sign hours minutes =>
    sign.apply (hours.val * 60 + minutes.val : Nat)

end Zone

/-
  The parts of a literal as they are written.  The two digits
  of a field are given by its number.
-/
structure Written where
  sign : Option Sign
  year : YearDigits
  month : Fin 13
  day : Fin 32
  hour : Fin 24
  minute : Fin 60
  second : Fin 61
  fraction : Option (List Char)
  zone : Zone

namespace Written

/- The text of a sign that can be left out. -/
def signText : Option Sign → List Char
| none => []
| some sign => [sign.char]

/- The text of a date. -/
def dateText (w : Written) : List Char :=
  w.year.chars ++
    '-' :: (padded 2 w.month ++ '-' :: padded 2 w.day)

/- The text of a time of day. -/
def clockText (w : Written) : List Char :=
  padded 2 w.hour ++
    ':' :: (padded 2 w.minute ++ ':' :: padded 2 w.second)

/- The point and what stands after it. -/
def fractionText : Option (List Char) → List Char
| none => []
| some fraction => '.' :: fraction

/- The text of a literal. -/
def text (w : Written) : List Char :=
  signText w.sign ++
    (w.dateText ++
      'T' :: (w.clockText ++ fractionText w.fraction ++
        w.zone.text))

/- The fields that a literal shows on a clock in its zone. -/
def localFields (w : Written) : Instant where
  year :=
    Int64.ofInt ((w.sign.getD .plus).apply (value w.year.chars))
  month := UInt8.ofNat w.month
  day := UInt8.ofNat w.day
  hour := UInt8.ofNat w.hour
  minute := UInt8.ofNat w.minute
  second := UInt8.ofNat w.second

/-
  What stands after the point of a literal without a zone
  cannot be taken for a zone.
-/
def IsClear (w : Written) : Prop :=
  w.zone = .unmarked →
    ∀ fraction, w.fraction = some fraction →
      '+' ∉ fraction ∧ '-' ∉ fraction ∧
        fraction.getLast? ≠ some 'Z'

/- What stands after the point is one or more digits. -/
def HasDigits (w : Written) : Prop :=
  ∀ fraction, w.fraction = some fraction →
    fraction ≠ [] ∧ AllDigits fraction

/- Digits cannot be taken for a zone. -/
theorem HasDigits.isClear
    {w : Written}
    (h : w.HasDigits) :
    w.IsClear := by
  intro _ fraction hFraction
  have hDigits := (h fraction hFraction).2
  refine
    ⟨hDigits.notMem (by decide), hDigits.notMem (by decide), ?_⟩
  intro hLast
  exact hDigits.notMem (c := 'Z') (by decide)
    (List.mem_of_getLast? hLast)

end Written

end Instant

end StatementQuery

------------------------------------------------------------
-- Reading The Parts
------------------------------------------------------------

namespace StatementQuery

namespace Instant

open Numeral

/- A field is read from its two digits. -/
theorem readField?_eq_some_iff
    {limit : Nat}
    (hLimit : limit < 100)
    {cs : List Char}
    {n : Nat} :
    readField? limit cs = some n ↔
      n ≤ limit ∧ cs = padded 2 n := by
  unfold readField?
  constructor
  · intro h
    split at h
    next hLength =>
      simp only [Option.filter_eq_some_iff, readNat?_eq_some_iff,
        decide_eq_true_eq] at h
      rcases h with ⟨⟨hDigits, -, hValue⟩, hLe⟩
      refine ⟨hLe, ?_⟩
      apply eq_of_value_eq hDigits (allDigits_padded 2 n)
      · rw [hLength, length_padded_two (by omega)]
      · rw [hValue, value_padded]
    next => cases h
  · rintro ⟨hLe, rfl⟩
    rw [if_pos (length_padded_two (by omega)), readNat?_padded]
    simp [Option.filter, hLe]

/- A year is read from its digits. -/
theorem readYear?_eq_some_iff
    {cs : List Char}
    {n : Nat} :
    readYear? cs = some n ↔
      ∃ year : YearDigits,
        year.chars = cs ∧ value year.chars = n := by
  simp only [readYear?, Option.filter_eq_some_iff,
    readNat?_eq_some_iff, decide_eq_true_eq]
  constructor
  · rintro ⟨⟨hDigits, hNe, rfl⟩, hLt⟩
    exact ⟨⟨cs, hDigits, hNe, hLt⟩, rfl, rfl⟩
  · rintro ⟨⟨chars, hDigits, hNe, hLt⟩, rfl, rfl⟩
    exact ⟨⟨hDigits, hNe, rfl⟩, hLt⟩

/- A separator is not among the two digits of a field. -/
theorem notMem_padded
    (n : Nat)
    {c : Char}
    (h : c.isDigit = false) :
    c ∉ padded 2 n :=
  (allDigits_padded 2 n).notMem h

/- A date is read from its digits and the dashes between. -/
theorem readDate?_eq_some_iff
    {cs : List Char}
    {year month day : Nat} :
    readDate? cs = some (year, month, day) ↔
      ∃ digits : YearDigits,
        value digits.chars = year ∧ month ≤ 12 ∧ day ≤ 31 ∧
          cs =
            digits.chars ++
              '-' :: (padded 2 month ++ '-' :: padded 2 day) := by
  simp only [readDate?, Option.bind_eq_bind,
    Option.bind_eq_some_iff, Prod.exists,
    Text.splitFirst_eq_some_iff, readYear?_eq_some_iff,
    readField?_eq_some_iff (show 12 < 100 by decide),
    readField?_eq_some_iff (show 31 < 100 by decide),
    Option.some.injEq, Prod.mk.injEq]
  constructor
  · rintro ⟨_, _, ⟨rfl, -⟩, _, _, ⟨rfl, -⟩, _,
      ⟨digits, rfl, rfl⟩, _, ⟨hMonth, rfl⟩, _, ⟨hDay, rfl⟩, rfl,
      rfl, rfl⟩
    exact ⟨digits, rfl, hMonth, hDay, rfl⟩
  · rintro ⟨digits, rfl, hMonth, hDay, rfl⟩
    exact
      ⟨_, _, ⟨rfl, digits.allDigits.notMem (by decide)⟩, _, _,
        ⟨rfl, notMem_padded month (by decide)⟩, _,
        ⟨digits, rfl, rfl⟩, _, ⟨hMonth, rfl⟩, _, ⟨hDay, rfl⟩, rfl,
        rfl, rfl⟩

/- A time of day is read from its digits and the colons. -/
theorem readClock?_eq_some_iff
    {cs : List Char}
    {hour minute second : Nat} :
    readClock? cs = some (hour, minute, second) ↔
      hour ≤ 23 ∧ minute ≤ 59 ∧ second ≤ 60 ∧
        cs =
          padded 2 hour ++
            ':' :: (padded 2 minute ++
              ':' :: padded 2 second) := by
  simp only [readClock?, Option.bind_eq_bind,
    Option.bind_eq_some_iff, Prod.exists,
    Text.splitFirst_eq_some_iff,
    readField?_eq_some_iff (show 23 < 100 by decide),
    readField?_eq_some_iff (show 59 < 100 by decide),
    readField?_eq_some_iff (show 60 < 100 by decide),
    Option.some.injEq, Prod.mk.injEq]
  constructor
  · rintro ⟨_, _, ⟨rfl, -⟩, _, _, ⟨rfl, -⟩, _, ⟨hHour, rfl⟩, _,
      ⟨hMinute, rfl⟩, _, ⟨hSecond, rfl⟩, rfl, rfl, rfl⟩
    exact ⟨hHour, hMinute, hSecond, rfl⟩
  · rintro ⟨hHour, hMinute, hSecond, rfl⟩
    exact
      ⟨_, _, ⟨rfl, notMem_padded hour (by decide)⟩, _, _,
        ⟨rfl, notMem_padded minute (by decide)⟩, _,
        ⟨hHour, rfl⟩, _, ⟨hMinute, rfl⟩, _, ⟨hSecond, rfl⟩, rfl,
        rfl, rfl⟩

/- A sign is one of two characters. -/
theorem exists_sign
    {c : Char}
    (h : (c = '+' || c = '-') = true) :
    ∃ sign : Sign, sign.char = c := by
  simp only [Bool.or_eq_true, decide_eq_true_eq] at h
  rcases h with rfl | rfl
  · exact ⟨.plus, rfl⟩
  · exact ⟨.minus, rfl⟩

/- The offset of a zone is read from its digits. -/
theorem readZone?_eq_some_iff
    {sign : Sign}
    {cs : List Char}
    {offset : Int} :
    readZone? sign.char cs = some offset ↔
      ∃ (hours : Fin 15) (minutes : Fin 60),
        cs = padded 2 hours ++ ':' :: padded 2 minutes ∧
          (Zone.offset sign hours minutes).minutesEast =
            offset := by
  have hApply :
      ∀ hours minutes : Nat,
        (if sign.char = '-' then -(hours * 60 + minutes : Int)
          else hours * 60 + minutes) =
          sign.apply (hours * 60 + minutes : Nat) := by
    intro hours minutes
    cases sign <;> simp [Sign.char, Sign.apply]
  simp only [readZone?, Option.bind_eq_bind,
    Option.bind_eq_some_iff, Prod.exists,
    Text.splitFirst_eq_some_iff,
    readField?_eq_some_iff (show 14 < 100 by decide),
    readField?_eq_some_iff (show 59 < 100 by decide),
    Option.some.injEq, hApply]
  constructor
  · rintro ⟨_, _, ⟨rfl, -⟩, hours, ⟨hHours, rfl⟩, minutes,
      ⟨hMinutes, rfl⟩, hOffset⟩
    exact
      ⟨⟨hours, by omega⟩, ⟨minutes, by omega⟩, rfl, hOffset⟩
  · rintro ⟨hours, minutes, rfl, hOffset⟩
    exact
      ⟨_, _, ⟨rfl, notMem_padded hours (by decide)⟩, hours,
        ⟨by omega, rfl⟩, minutes, ⟨by omega, rfl⟩, hOffset⟩

/- A text that ends in digits does not end in a letter. -/
theorem getLast?_append_ne
    (lead : List Char)
    (n : Nat) :
    (lead ++ padded 2 n).getLast? ≠ some 'Z' := by
  have hNe : padded 2 n ≠ [] := by
    simp [padded, digits_ne_nil]
  rw [List.getLast?_append_of_ne_nil lead hNe]
  intro hLast
  exact notMem_padded n (by decide) (List.mem_of_getLast? hLast)

/- What is told apart from a time of day is a zone. -/
theorem exists_zone_of_splitZone?
    {cs clock : List Char}
    {offset : Int}
    (h : splitZone? cs = some (clock, offset)) :
    ∃ zone : Zone,
      cs = clock ++ zone.text ∧ zone.minutesEast = offset ∧
        (zone = .unmarked →
          '+' ∉ clock ∧ '-' ∉ clock ∧
            clock.getLast? ≠ some 'Z') := by
  unfold splitZone? at h
  split at h
  next lead hDrop =>
    cases h
    refine ⟨.universal, ?_, rfl, by simp⟩
    exact Text.dropLast?_eq_some_iff.mp hDrop
  next hDrop =>
    split at h
    next hSplit =>
      cases h
      have hSigns := Text.splitLast_eq_none_iff.mp hSplit
      refine ⟨.unmarked, by simp [Zone.text], rfl, ?_⟩
      intro _
      refine ⟨fun hMem => ?_, fun hMem => ?_, fun hLast => ?_⟩
      · simpa using hSigns '+' hMem
      · simpa using hSigns '-' hMem
      · simp [Text.dropLast?, hLast] at hDrop
    next lead c trail hSplit =>
      rcases Option.map_eq_some_iff.mp h with
        ⟨minutesEast, hZone, hEq⟩
      cases hEq
      rcases Text.eq_append_of_splitLast hSplit with
        ⟨rfl, hSep⟩
      rcases exists_sign hSep with ⟨sign, rfl⟩
      rcases readZone?_eq_some_iff.mp hZone with
        ⟨hours, minutes, rfl, hOffset⟩
      exact
        ⟨.offset sign hours minutes, rfl, hOffset, by simp⟩

/- Where no zone is written, none is told apart. -/
theorem splitZone?_unmarked
    {clock : List Char}
    (hPlus : '+' ∉ clock)
    (hMinus : '-' ∉ clock)
    (hLast : clock.getLast? ≠ some 'Z') :
    splitZone? clock = some (clock, 0) := by
  have hSplit :
      Text.splitLast (fun c => c = '+' || c = '-') clock =
        none := by
    rw [Text.splitLast_eq_none_iff]
    intro c hc
    have hNePlus : c ≠ '+' := fun h => hPlus (h ▸ hc)
    have hNeMinus : c ≠ '-' := fun h => hMinus (h ▸ hc)
    simp [hNePlus, hNeMinus]
  simp [splitZone?, Text.dropLast?, hLast, hSplit]

/- An offset is told apart by its sign. -/
theorem splitZone?_offset
    (clock : List Char)
    (sign : Sign)
    (hours : Fin 15)
    (minutes : Fin 60) :
    splitZone? (clock ++ (Zone.offset sign hours minutes).text) =
      some
        (clock, (Zone.offset sign hours minutes).minutesEast) := by
  have hDrop :
      Text.dropLast? 'Z'
          (clock ++ (Zone.offset sign hours minutes).text) =
        none := by
    have hLast :=
      getLast?_append_ne
        (clock ++ sign.char :: (padded 2 hours ++ [':']))
        minutes
    apply if_neg
    simpa [Zone.text] using hLast
  have hSplit :
      Text.splitLast (fun c => c = '+' || c = '-')
          (clock ++ (Zone.offset sign hours minutes).text) =
        some
          (clock, sign.char,
            padded 2 hours ++ ':' :: padded 2 minutes) := by
    apply Text.splitLast_append clock
    · cases sign <;> rfl
    · intro c hc
      -- neither the digits nor the colon are signs
      have hNe : c ≠ '+' ∧ c ≠ '-' := by
        constructor <;> rintro rfl <;>
          simp [notMem_padded _
            (show '+'.isDigit = false by decide),
            notMem_padded _
            (show '-'.isDigit = false by decide)] at hc
      simp [hNe]
  have hZone :
      readZone? sign.char
          (padded 2 hours ++ ':' :: padded 2 minutes) =
        some (Zone.offset sign hours minutes).minutesEast :=
    readZone?_eq_some_iff.mpr ⟨hours, minutes, rfl, rfl⟩
  simp only [splitZone?, hDrop, hSplit, hZone, Option.map_some]

/-
  A time of day is told apart from its zone, by a `Z` at its
  end or else by its last sign.
-/
theorem splitZone?_eq_some_iff
    {cs clock : List Char}
    {offset : Int} :
    splitZone? cs = some (clock, offset) ↔
      ∃ zone : Zone,
        cs = clock ++ zone.text ∧ zone.minutesEast = offset ∧
          (zone = .unmarked →
            '+' ∉ clock ∧ '-' ∉ clock ∧
              clock.getLast? ≠ some 'Z') := by
  refine ⟨exists_zone_of_splitZone?, ?_⟩
  rintro ⟨zone, rfl, rfl, hClear⟩
  cases zone with
  | unmarked =>
      rcases hClear rfl with ⟨hPlus, hMinus, hLast⟩
      rw [Zone.text, List.append_nil]
      exact splitZone?_unmarked hPlus hMinus hLast
  | universal =>
      simp [splitZone?, Zone.text, Text.dropLast?_append,
        Zone.minutesEast]
  | offset sign hours minutes =>
      exact splitZone?_offset clock sign hours minutes

/- A time of day is cut at the point. -/
theorem dropFraction_append
    {clock : List Char}
    (h : '.' ∉ clock)
    (fraction : Option (List Char)) :
    dropFraction (clock ++ Written.fractionText fraction) =
      clock := by
  cases fraction with
  | none =>
      simp [Written.fractionText, dropFraction,
        Text.splitFirst_of_notMem h]
  | some fraction =>
      simp [Written.fractionText, dropFraction,
        Text.splitFirst_append h]

/- What is cut off a time of day is a point with a text. -/
theorem exists_fraction
    (cs : List Char) :
    ∃ fraction,
      cs = dropFraction cs ++ Written.fractionText fraction := by
  cases hSplit : Text.splitFirst '.' cs with
  | none =>
      exact
        ⟨none, by simp [dropFraction, hSplit,
          Written.fractionText]⟩
  | some parts =>
      refine ⟨some parts.2, ?_⟩
      rw [dropFraction, hSplit]
      exact (Text.splitFirst_eq_some_iff.mp hSplit).1

/- A sign is told apart from the digits of a year. -/
theorem splitSign_signText
    (sign : Option Sign)
    (year : YearDigits)
    (cs : List Char) :
    splitSign (Written.signText sign ++ (year.chars ++ cs)) =
      (decide (sign = some .minus), year.chars ++ cs) := by
  rcases sign with _ | sign
  · exact splitSign_of_allDigits year.allDigits year.ne_nil cs
  · cases sign <;> simp [Written.signText, Sign.char, splitSign]

/- What is taken off in front of a year is a sign or nothing. -/
theorem exists_signText
    (cs : List Char) :
    ∃ sign, cs = Written.signText sign ++ (splitSign cs).2 := by
  unfold splitSign
  split
  · exact ⟨some .minus, rfl⟩
  · exact ⟨some .plus, rfl⟩
  · exact ⟨none, rfl⟩

/- A minus in front makes a year negative. -/
theorem signedYear_eq
    (sign : Option Sign)
    (year : Nat) :
    (if decide (sign = some .minus) then -(year : Int)
      else year) =
      (sign.getD .plus).apply year := by
  rcases sign with _ | _ | _ <;> rfl

end Instant

end StatementQuery

------------------------------------------------------------
-- Reading Literals
------------------------------------------------------------

namespace StatementQuery

namespace Instant

open Numeral

namespace Written

/- The date of a literal has no `T`. -/
theorem notMem_dateText
    (w : Written) :
    'T' ∉ w.dateText := by
  simp [dateText,
    w.year.allDigits.notMem (by decide : 'T'.isDigit = false),
    notMem_padded _ (by decide : 'T'.isDigit = false)]

/- The time of day of a literal has digits and colons only. -/
theorem notMem_clockText
    (w : Written)
    {c : Char}
    (h : c.isDigit = false)
    (hColon : c ≠ ':') :
    c ∉ w.clockText := by
  simp [clockText, notMem_padded _ h, hColon]

/- The date and the time are told apart. -/
theorem splitFirst_text
    (w : Written) :
    Text.splitFirst 'T' (splitSign w.text).2 =
      some
        (w.dateText,
          w.clockText ++ fractionText w.fraction ++
            w.zone.text) := by
  have hSign :=
    splitSign_signText w.sign w.year
      ('-' :: (padded 2 w.month ++ '-' :: padded 2 w.day) ++
        'T' :: (w.clockText ++ fractionText w.fraction ++
          w.zone.text))
  rw [← List.append_assoc w.year.chars] at hSign
  rw [text, dateText, hSign]
  exact Text.splitFirst_append w.notMem_dateText _

/- The zone of a clear literal is found. -/
theorem splitZone?_text
    {w : Written}
    (h : w.IsClear) :
    splitZone?
        (w.clockText ++ fractionText w.fraction ++
          w.zone.text) =
      some
        (w.clockText ++ fractionText w.fraction,
          w.zone.minutesEast) := by
  rw [splitZone?_eq_some_iff]
  refine ⟨w.zone, rfl, rfl, ?_⟩
  intro hZone
  have hPlus :=
    w.notMem_clockText (by decide : '+'.isDigit = false)
      (by decide)
  have hMinus :=
    w.notMem_clockText (by decide : '-'.isDigit = false)
      (by decide)
  cases hFraction : w.fraction with
  | none =>
      have hLast :=
        getLast?_append_ne
          (padded 2 w.hour ++ ':' :: (padded 2 w.minute ++ [':']))
          w.second
      refine ⟨?_, ?_, ?_⟩
      · simpa [fractionText] using hPlus
      · simpa [fractionText] using hMinus
      · simpa [fractionText, clockText] using hLast
  | some fraction =>
      rcases h hZone fraction hFraction with
        ⟨hNoPlus, hNoMinus, hNoZ⟩
      refine ⟨?_, ?_, ?_⟩
      · simp [fractionText, hPlus, hNoPlus]
      · simp [fractionText, hMinus, hNoMinus]
      · rcases List.eq_nil_or_concat fraction with
          rfl | ⟨lead, last, rfl⟩
        · simp [fractionText]
        · simpa [fractionText, List.getLast?_cons] using hNoZ

/- A clear literal is read by its fields and its zone. -/
theorem parseChars?_text
    {w : Written}
    (h : w.IsClear) :
    parseChars? w.text =
      w.localFields.shift? w.zone.minutesEast := by
  have hSign :
      (splitSign w.text).1 = decide (w.sign = some .minus) := by
    rw [text, dateText, List.append_assoc, splitSign_signText]
  have hDate :
      readDate? w.dateText =
        some (value w.year.chars, w.month.val, w.day.val) :=
    readDate?_eq_some_iff.mpr
      ⟨w.year, rfl, by omega, by omega, rfl⟩
  have hPoint :=
    w.notMem_clockText (by decide : '.'.isDigit = false)
      (by decide)
  have hClock :
      readClock? w.clockText =
        some (w.hour.val, w.minute.val, w.second.val) :=
    readClock?_eq_some_iff.mpr
      ⟨by omega, by omega, by omega, rfl⟩
  simp only [parseChars?, hSign, w.splitFirst_text, hDate,
    splitZone?_text h, dropFraction_append hPoint, hClock,
    Option.bind_eq_bind, Option.bind_some, signedYear_eq]
  rfl

/- The fraction of a clear literal is found in its text. -/
theorem fraction_eq
    {v w : Written}
    (hv : v.IsClear)
    (hw : w.IsClear)
    (h : v.text = w.text) :
    v.fraction = w.fraction := by
  have hPoint :
      ∀ u : Written,
        Text.splitFirst '.'
            (u.clockText ++ fractionText u.fraction) =
          u.fraction.map (u.clockText, ·) := by
    intro u
    have hNot :=
      u.notMem_clockText (by decide : '.'.isDigit = false)
        (by decide)
    cases u.fraction with
    | none =>
        simpa [fractionText] using Text.splitFirst_of_notMem hNot
    | some fraction => exact Text.splitFirst_append hNot fraction
  have hTime := v.splitFirst_text
  rw [h, w.splitFirst_text] at hTime
  have hZone := splitZone?_text hv
  rw [← (Prod.mk.inj (Option.some.inj hTime)).2,
    splitZone?_text hw] at hZone
  have hFraction := hPoint v
  rw [← (Prod.mk.inj (Option.some.inj hZone)).1,
    hPoint w] at hFraction
  have hTrail :=
    congrArg (Option.map Prod.snd) hFraction
  simpa using hTrail.symm

end Written

/- What is read is the text of a clear literal. -/
theorem exists_written
    {cs : List Char}
    {i : Instant}
    (h : parseChars? cs = some i) :
    ∃ w : Written, w.IsClear ∧ w.text = cs := by
  rcases exists_signText cs with ⟨sign, hSign⟩
  simp only [parseChars?, Option.bind_eq_bind,
    Option.bind_eq_some_iff, Prod.exists,
    Text.splitFirst_eq_some_iff, readDate?_eq_some_iff,
    splitZone?_eq_some_iff, readClock?_eq_some_iff] at h
  rcases h with
    ⟨datePart, timePart, ⟨hUnsigned, -⟩, _, month, day,
      ⟨year, -, hMonth, hDay, rfl⟩, clockPart, _,
      ⟨zone, rfl, -, hClear⟩, hour, minute, second,
      ⟨hHour, hMinute, hSecond, hClock⟩, -⟩
  rcases exists_fraction clockPart with ⟨fraction, hFraction⟩
  rw [hClock] at hFraction
  refine
    ⟨{ sign, year, fraction, zone
       month := ⟨month, by omega⟩
       day := ⟨day, by omega⟩
       hour := ⟨hour, by omega⟩
       minute := ⟨minute, by omega⟩
       second := ⟨second, by omega⟩ }, ?_, ?_⟩
  · rintro hZone text rfl
    rcases hClear hZone with ⟨hPlus, hMinus, hLast⟩
    rw [hFraction] at hPlus hMinus hLast
    simp only [Written.fractionText, List.mem_append,
      List.mem_cons, not_or] at hPlus hMinus
    refine ⟨hPlus.2.2, hMinus.2.2, ?_⟩
    intro hZ
    apply hLast
    simp [Written.fractionText, List.getLast?_append,
      List.getLast?_cons, hZ]
  · rw [hSign, hUnsigned, hFraction]
    simp [Written.text, Written.dateText, Written.clockText]

end Instant

end StatementQuery

------------------------------------------------------------
-- Instants That Are Read Back
------------------------------------------------------------

namespace StatementQuery

namespace Instant

open Numeral

/- The fields of a literal are in the ranges of a literal. -/
theorem Written.writable_localFields
    (w : Written) :
    w.localFields.Writable := by
  have hYear := w.year.lt
  refine ⟨?_, ?_, ?_, ?_, ?_, ?_⟩
  · intro hMin
    have hToInt :=
      congrArg Int64.toInt hMin
    simp only [Written.localFields] at hToInt
    have hMinInt : Int64.minValue.toInt = -2 ^ 63 := rfl
    rw [hMinInt] at hToInt
    rcases hSign : w.sign.getD .plus with _ | _
    · rw [hSign, Sign.apply,
        Int64.toInt_ofInt_of_le (by omega) (by omega)] at hToInt
      omega
    · rw [hSign, Sign.apply,
        Int64.toInt_ofInt_of_le (by omega) (by omega)] at hToInt
      omega
  all_goals
    simp only [Written.localFields, UInt8.le_iff_toNat_le,
      UInt8.lt_iff_toNat_lt]
    rw [toNat_ofNat_of_lt_hundred (by omega)]
    simp only [UInt8.reduceToNat]
    omega

/- The fields of a date-time are in the ranges of a literal. -/
theorem OnCalendar.writable
    {i : Instant}
    (h : i.OnCalendar) :
    i.Writable := by
  rcases h with ⟨hYear, hDate, hHour, hMinute, hSecond⟩
  have hMonth := hDate.isMonth
  have hDay := hDate.day_le
  simp only [date] at hMonth hDay
  refine ⟨?_, ?_, ?_, hHour, hMinute, ?_⟩
  · rintro hMin
    rw [hMin] at hYear
    exact absurd hYear (by decide)
  all_goals
    simp only [UInt8.le_iff_toNat_le, UInt8.reduceToNat]
    omega

/- What is read can be written. -/
theorem writable_of_parse?
    {s : String}
    {i : Instant}
    (h : parse? s = some i) :
    i.Writable := by
  rcases exists_written h with ⟨w, hClear, hText⟩
  rw [parse?, ← hText, Written.parseChars?_text hClear] at h
  by_cases hOn : w.localFields.OnCalendar
  · exact ((shift?_eq_some_iff hOn).mp h).1.writable
  · by_cases hZero : w.zone.minutesEast = 0
    · rw [hZero] at h
      obtain rfl : w.localFields = i := Option.some.inj h
      exact w.writable_localFields
    · rw [shift?_of_not_onCalendar hOn hZero] at h
      cases h

/- Padded digits are told apart by their numbers. -/
theorem eq_of_padded_eq
    {width width' m n : Nat}
    (h : padded width m = padded width' n) :
    m = n := by
  have hValue := congrArg value h
  rwa [value_padded, value_padded] at hValue

/- What is read from its own text is in the ranges. -/
theorem writable_of_parse?_render
    {i j : Instant}
    (h : parse? i.render = some j) :
    i.Writable := by
  simp only [parse?_render_eq, Option.bind_eq_bind,
    Option.bind_eq_some_iff, Prod.exists,
    readDate?_eq_some_iff, readClock?_eq_some_iff] at h
  rcases h with
    ⟨_, month, day, ⟨year, -, hMonth, hDay, hDate⟩, hour, minute,
      second, ⟨hHour, hMinute, hSecond, hClock⟩, -⟩
  rcases Text.append_cons_inj
      ((allDigits_padded 4 _).notMem (by decide))
      (year.allDigits.notMem (by decide)) hDate with
    ⟨hYearText, hDate⟩
  rcases Text.append_cons_inj
      (notMem_renderField i.month (by decide))
      (notMem_padded month (by decide)) hDate with
    ⟨hMonthText, hDayText⟩
  rcases Text.append_cons_inj
      (notMem_renderField i.hour (by decide))
      (notMem_padded hour (by decide)) hClock with
    ⟨hHourText, hClock⟩
  rcases Text.append_cons_inj
      (notMem_renderField i.minute (by decide))
      (notMem_padded minute (by decide)) hClock with
    ⟨hMinuteText, hSecondText⟩
  have hMonthNat := eq_of_padded_eq hMonthText
  have hDayNat := eq_of_padded_eq hDayText
  have hHourNat := eq_of_padded_eq hHourText
  have hMinuteNat := eq_of_padded_eq hMinuteText
  have hSecondNat := eq_of_padded_eq hSecondText
  refine ⟨?_, ?_, ?_, ?_, ?_, ?_⟩
  · rintro hMin
    have hYear := year.lt
    rw [← hYearText, value_padded, hMin] at hYear
    exact absurd hYear (by decide)
  all_goals
    simp only [UInt8.le_iff_toNat_le, UInt8.lt_iff_toNat_lt,
      UInt8.reduceToNat]
    omega

/-
  An instant is read back from its text exactly if its fields
  are in the ranges of a literal, and no other instant is read
  from it; the instants that are read from any text are all
  read back.
-/
theorem reads_back_iff_writable
    (i : Instant) :
    (parse? i.render = some i ↔ i.Writable) ∧
      (parse? i.render = none ↔ ¬ i.Writable) ∧
      ∀ s, parse? s = some i → parse? i.render = some i := by
  refine ⟨⟨?_, parse?_render⟩, ?_, ?_⟩
  · exact writable_of_parse?_render
  · constructor
    · intro hNone h
      rw [parse?_render h] at hNone
      cases hNone
    · intro h
      cases hParse : parse? i.render with
      | none => rfl
      | some j => exact absurd (writable_of_parse?_render hParse) h
  · intro s h
    exact parse?_render (writable_of_parse? h)

end Instant

end StatementQuery
