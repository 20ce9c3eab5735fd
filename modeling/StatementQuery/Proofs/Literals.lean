import StatementQuery.Decimal.Literal
import StatementQuery.Instant.Literal
import StatementQuery.Proofs.CutTexts
import StatementQuery.Proofs.DecimalNumber

/-
  What is written can be read.

  A decimal is a sign, digits with at most one point among
  them, and an exponent; an instant is fields with separators
  between them that occur in none of the fields.  Reading cuts
  the text at the places where writing put the parts together.

  Main declarations:
    * `Decimal.parse?_render`
    * `Decimal.normalize_expand`
    * `Instant.parse?_render`
-/

------------------------------------------------------------
-- Decimals
------------------------------------------------------------

namespace StatementQuery

namespace Decimal

open Numeral

/- The sign of a number in front of its magnitude. -/
def signedText (isNegative : Bool) (magnitude : List Char) :
    List Char :=
  if isNegative then '-' :: magnitude else magnitude

/- The point and what stands after it. -/
def pointText (trail : List Char) : List Char :=
  if trail = [] then [] else '.' :: trail

/- The mark of an exponent and the exponent. -/
def exponentText : Option Int → List Char
| none => []
| some e => 'E' :: renderExponent e

/- The exponent mark is found behind a base that has none. -/
theorem splitExponent_append
    {base : List Char}
    (hLower : 'e' ∉ base)
    (hUpper : 'E' ∉ base)
    (exponent : Option Int) :
    splitExponent (base ++ exponentText exponent) =
      (base, exponent.map renderExponent) := by
  induction base with
  | nil =>
      cases exponent with
      | none => rfl
      | some e => simp [exponentText, splitExponent]
  | cons c base ih =>
      have hTail :=
        ih (fun h => hLower (by simp [h]))
          (fun h => hUpper (by simp [h]))
      have hc : c ≠ 'e' ∧ c ≠ 'E' :=
        ⟨fun h => hLower (by simp [h]),
          fun h => hUpper (by simp [h])⟩
      simp [splitExponent, hc, hTail]

/- A signed exponent is read as the number. -/
theorem readInt?_renderExponent
    (e : Int) :
    readInt? (renderExponent e) = some e := by
  unfold renderExponent
  split
  next hNeg =>
    have hAbs : -(e.natAbs : Int) = e := by omega
    simp only [readInt?, readNat?_digits]
    exact congrArg some hAbs
  next hPos =>
    have hAbs : (e.natAbs : Int) = e := by omega
    simp only [readInt?, readNat?_digits]
    exact congrArg some hAbs

/- An exponent is read as the number it was written for. -/
theorem readExponent?_map_render
    {exponent : Option Int}
    (h : fitsSigned 128 (exponent.getD 0) = true) :
    readExponent? (exponent.map renderExponent) =
      some (exponent.getD 0) := by
  cases exponent with
  | none => rfl
  | some e =>
      simp only [Option.getD_some] at h
      simp [readExponent?, readInt?_renderExponent, h,
        Option.filter]

/- Digits are no underscores. -/
theorem filter_of_allDigits
    {cs : List Char}
    (h : AllDigits cs) :
    cs.filter (· ≠ '_') = cs := by
  apply List.filter_eq_self.mpr
  intro c hc
  have hNe : c ≠ '_' := by
    rintro rfl
    exact absurd (h '_' hc) (by decide)
  simpa using hNe

/- Digits are read as the number they denote. -/
theorem readSpacedNat?_of_allDigits
    {cs : List Char}
    (h : AllDigits cs)
    (hNe : cs ≠ []) :
    readSpacedNat? cs = some (value cs) := by
  have hHead : cs.head? ≠ some '_' := by
    intro hHead
    exact h.notMem (by decide) (List.mem_of_head? hHead)
  have hAll :
      cs.all (fun c => c.isDigit || c = '_') = true := by
    apply List.all_eq_true.mpr
    intro c hc
    simp [h c hc]
  unfold readSpacedNat?
  rw [if_neg hHead, if_neg (by simpa using hNe), if_pos hAll,
    filter_of_allDigits h]

/- Digits with a sign are read as the number they denote. -/
theorem readSpacedInt?_signedText
    (isNegative : Bool)
    {cs : List Char}
    (h : AllDigits cs)
    (hNe : cs ≠ []) :
    readSpacedInt? (signedText isNegative cs) =
      some (if isNegative then -(value cs : Int)
        else value cs) := by
  have hRead := readSpacedNat?_of_allDigits h hNe
  cases isNegative with
  | true => simp [signedText, readSpacedInt?, hRead]
  | false =>
      rcases List.exists_cons_of_ne_nil hNe with ⟨c, rest, rfl⟩
      have hMinus : c ≠ '-' := h.head_ne (by decide)
      have hPlus : c ≠ '+' := h.head_ne (by decide)
      simp [signedText, readSpacedInt?, hMinus, hPlus, hRead]

/- A sign is in front of the parts of a magnitude. -/
theorem signedText_append
    (isNegative : Bool)
    (cs ds : List Char) :
    signedText isNegative (cs ++ ds) =
      signedText isNegative cs ++ ds := by
  cases isNegative <;> rfl

/- A sign adds no character but itself. -/
theorem notMem_signedText
    (isNegative : Bool)
    {cs : List Char}
    {c : Char}
    (h : c ∉ cs)
    (hSign : c ≠ '-') :
    c ∉ signedText isNegative cs := by
  cases isNegative with
  | true => simpa [signedText, hSign] using h
  | false => simpa [signedText] using h

/- The point is found again, and the places after it. -/
theorem splitPoint_signedText
    (isNegative : Bool)
    {lead trail : List Char}
    (hLead : AllDigits lead)
    (hTrail : AllDigits trail) :
    splitPoint
        (signedText isNegative (lead ++ pointText trail)) =
      (signedText isNegative (lead ++ trail),
        trail.length) := by
  have hPoint : '.' ∉ signedText isNegative lead :=
    notMem_signedText isNegative (hLead.notMem (by decide))
      (by decide)
  unfold splitPoint
  rw [signedText_append]
  by_cases hNil : trail = []
  · simp [pointText, hNil, Text.splitFirst_of_notMem hPoint]
  · have hSplit := Text.splitFirst_append hPoint trail
    have hFilter := filter_of_allDigits hTrail
    simp only [pointText, if_neg hNil, hSplit, hFilter,
      signedText_append]

/- A magnitude has no exponent mark. -/
theorem notMem_magnitude
    (isNegative : Bool)
    {lead trail : List Char}
    (hLead : AllDigits lead)
    (hTrail : AllDigits trail)
    {c : Char}
    (hDigit : c.isDigit = false)
    (hSign : c ≠ '-')
    (hPoint : c ≠ '.') :
    c ∉ signedText isNegative (lead ++ pointText trail) := by
  apply notMem_signedText isNegative _ hSign
  have hInTrail : c ∉ pointText trail := by
    unfold pointText
    split
    next => simp
    next => simpa [hPoint] using hTrail.notMem hDigit
  simpa [hLead.notMem hDigit] using hInTrail

/- A sign, digits, a point and an exponent are read. -/
theorem parseChars?_written
    (isNegative : Bool)
    {lead trail : List Char}
    (hLead : AllDigits lead)
    (hNe : lead ≠ [])
    (hTrail : AllDigits trail)
    {exponent : Option Int}
    (hExponent : fitsSigned 128 (exponent.getD 0) = true)
    (hScale :
      fitsSigned 64 (trail.length - exponent.getD 0) = true) :
    parseChars?
        (signedText isNegative
          (lead ++ pointText trail ++ exponentText exponent)) =
      some
        ⟨if isNegative then -(value (lead ++ trail) : Int)
          else value (lead ++ trail),
          Int64.ofInt (trail.length - exponent.getD 0)⟩ := by
  have hSplit :=
    splitExponent_append
      (notMem_magnitude isNegative hLead hTrail
        (by decide : 'e'.isDigit = false)
        (by decide) (by decide))
      (notMem_magnitude isNegative hLead hTrail
        (by decide : 'E'.isDigit = false)
        (by decide) (by decide))
      exponent
  have hBase :
      signedText isNegative (lead ++ pointText trail) ≠ [] := by
    cases isNegative <;> simp [signedText, hNe]
  have hDigits :=
    readSpacedInt?_signedText isNegative
      (hLead.append hTrail) (by simp [hNe])
  rw [signedText_append]
  unfold parseChars?
  simp only [hSplit, readExponent?_map_render hExponent,
    splitPoint_signedText isNegative hLead hTrail, hDigits,
    hScale, Option.bind_eq_bind, Option.bind_some]
  simp [hBase]

/- What is read back from the text of a number. -/
theorem parseChars?_magnitude
    {d : Decimal}
    {lead trail : List Char}
    (hLead : AllDigits lead)
    (hNe : lead ≠ [])
    (hTrail : AllDigits trail)
    {exponent : Option Int}
    (hExponent : fitsSigned 128 (exponent.getD 0) = true)
    (hValue : value (lead ++ trail) = d.unscaled.natAbs)
    (hScale : trail.length - exponent.getD 0 = d.scale.toInt) :
    parseChars?
        (signedText (d.unscaled < 0)
          (lead ++ pointText trail ++ exponentText exponent)) =
      some d := by
  have hRead :=
    parseChars?_written (d.unscaled < 0) hLead hNe hTrail hExponent
      (by rw [hScale]; exact fitsSigned_toInt d.scale)
  rw [hRead, hValue, hScale, Int64.ofInt_toInt]
  by_cases hNeg : d.unscaled < 0
  · have hAbs : -(d.unscaled.natAbs : Int) = d.unscaled := by omega
    simp only [hNeg, decide_true, if_true, hAbs]
  · have hAbs : (d.unscaled.natAbs : Int) = d.unscaled := by omega
    simp only [hNeg, decide_false, Bool.false_eq_true, if_false,
      hAbs]

/- Part of some digits are digits. -/
theorem allDigits_of_sublist
    {cs : List Char}
    {n : Nat}
    (h : cs.Sublist (digits n)) :
    AllDigits cs :=
  fun c hc => allDigits_digits n c (h.subset hc)

/-
  A text is a way to write digits at a scale: a point among
  digits and at most one exponent, which together move the
  point by the scale.
-/
def Writes (n : Nat) (scale : Int) (text : List Char) : Prop :=
  ∃ (lead trail : List Char) (exponent : Option Int),
    text = lead ++ pointText trail ++ exponentText exponent ∧
      AllDigits lead ∧ lead ≠ [] ∧ AllDigits trail ∧
      fitsSigned 128 (exponent.getD 0) = true ∧
      value (lead ++ trail) = n ∧
      trail.length - exponent.getD 0 = scale

/- The point after the first digit needs an exponent. -/
theorem writes_renderScientific
    {n : Nat}
    {scale : Int64}
    (hLarge : scale.toInt > (digits n).length + 5) :
    Writes n scale.toInt
      (renderScientific (digits n) scale.toInt) := by
  have hNe := digits_ne_nil n
  have hHigh := Int64.toInt_lt scale
  have hLength : 0 < (digits n).length :=
    List.length_pos_iff.mpr hNe
  refine
    ⟨(digits n).take 1, (digits n).drop 1,
      some ((digits n).length - 1 - scale.toInt), ?_,
      allDigits_of_sublist (List.take_sublist 1 _), ?_,
      allDigits_of_sublist (List.drop_sublist 1 _), ?_, ?_, ?_⟩
  · have hPoint :
        pointText ((digits n).drop 1) =
          if (digits n).length ≤ 1 then []
          else '.' :: (digits n).drop 1 := by
      simp only [pointText, List.drop_eq_nil_iff]
    simp only [renderScientific, hPoint, exponentText]
  · simpa using hNe
  · simp only [fitsSigned, Option.getD_some]
    norm_num
    omega
  · rw [List.take_append_drop, value_digits]
  · simp only [List.length_drop, Option.getD_some]
    omega

/- The point among the digits needs no exponent. -/
theorem writes_renderPlain
    {n : Nat}
    {scale : Int}
    (hNonneg : 0 ≤ scale) :
    Writes n scale (renderPlain (digits n) scale) := by
  have hNe := digits_ne_nil n
  have hLength : 0 < (digits n).length :=
    List.length_pos_iff.mpr hNe
  unfold renderPlain
  split
  next hZero =>
    obtain rfl : scale = 0 := by omega
    refine
      ⟨digits n, [], none, by simp [pointText, exponentText],
        allDigits_digits n, hNe, by simp [AllDigits], by decide,
        by simp, by simp⟩
  next hPos =>
    split
    next hInside =>
      have hDrop :
          (digits n).drop ((digits n).length - scale.natAbs) ≠
            [] := by
        simp only [ne_eq, List.drop_eq_nil_iff]
        omega
      refine
        ⟨(digits n).take ((digits n).length - scale.natAbs),
          (digits n).drop ((digits n).length - scale.natAbs),
          none, by simp [pointText, hDrop, exponentText],
          allDigits_of_sublist (List.take_sublist _ _), ?_,
          allDigits_of_sublist (List.drop_sublist _ _),
          by decide, ?_, ?_⟩
      · simp only [ne_eq, List.take_eq_nil_iff, hNe, or_false]
        omega
      · rw [List.take_append_drop, value_digits]
      · simp only [List.length_drop, Option.getD_none]
        omega
    next hOutside =>
      refine
        ⟨['0'],
          List.replicate (scale.natAbs - (digits n).length) '0' ++
            digits n,
          none, by simp [pointText, hNe, exponentText],
          allDigits_replicate 1, by simp,
          (allDigits_replicate _).append (allDigits_digits n),
          by decide, ?_, ?_⟩
      · have hLead : value ['0'] = 0 := by decide
        rw [value_append, value_append, value_replicate_zero,
          value_digits, hLead]
        simp
      · simp only [List.length_append, List.length_replicate,
          Option.getD_none]
        omega

/- A decimal of a scale that is not negative is read back. -/
theorem parse?_render
    {d : Decimal}
    (hNonneg : 0 ≤ d.scale.toInt)
    (hZero : d.unscaled = 0 → d.scale = 0) :
    parse? d.render = some d := by
  rw [parse?, render, String.toList_ofList, renderChars]
  split
  next hUnscaled =>
    have hScale := hZero hUnscaled
    rcases d with ⟨unscaled, scale⟩
    simp only at hUnscaled hScale
    subst hUnscaled hScale
    rfl
  next hUnscaled =>
    have hWrites :
        Writes d.unscaled.natAbs d.scale.toInt
          (renderMagnitude (digits d.unscaled.natAbs)
            d.scale.toInt) := by
      unfold renderMagnitude
      split
      next hLarge => exact writes_renderScientific hLarge
      next =>
        rw [if_neg (by omega)]
        exact writes_renderPlain hNonneg
    rcases hWrites with
      ⟨lead, trail, exponent, hText, hLead, hNe, hTrail,
        hExponent, hValue, hScale⟩
    have hRead :=
      parseChars?_magnitude hLead hNe hTrail hExponent hValue
        hScale
    rw [hText]
    simpa [signedText] using hRead

/- A number written without scale has the zeros in its digits. -/
theorem exists_pads_expand
    (d : Decimal) :
    ∃ z, Pads d d.expand z := by
  unfold expand
  split
  next hNeg =>
    have hScale :
        (0 : Int) = d.scale.toInt + d.scale.toInt.natAbs := by
      omega
    exact ⟨d.scale.toInt.natAbs, by simp, hScale⟩
  next => exact ⟨0, Pads.refl d⟩

/- A number written without scale is the same number. -/
theorem normalize_expand
    (d : Decimal) :
    d.expand.normalize = d.normalize := by
  rcases exists_pads_expand d with ⟨z, hPads⟩
  exact hPads.normalize_eq

/- The scale of an expanded number is not negative. -/
theorem scale_expand_nonneg
    (d : Decimal) :
    0 ≤ d.expand.scale.toInt := by
  unfold expand
  split
  next => exact le_refl 0
  next hNonneg => exact not_lt.mp hNonneg

/- A number is read back from its literal as the same number. -/
theorem exists_parse?_expand
    (d : Decimal) :
    ∃ e,
      parse? d.normalize.expand.render = some e ∧
        e.same d = true := by
  refine
    ⟨d.normalize.expand, parse?_render (scale_expand_nonneg _) ?_,
      ?_⟩
  · intro hZero
    by_cases hUnscaled : d.unscaled = 0
    · rw [normalize_of_eq_zero hUnscaled]
      rfl
    · rcases exists_pads_expand d.normalize with ⟨z, hPads⟩
      exact absurd hZero
        (hPads.unscaled_ne_zero
          (exists_pads_normalize hUnscaled).1.ne_zero)
  · rw [same_iff, normalize_expand, normalize_normalize]

end Decimal

end StatementQuery

------------------------------------------------------------
-- Instants
------------------------------------------------------------

namespace StatementQuery

namespace Instant

open Numeral

/- The fields of an instant are in the ranges of a literal. -/
structure Writable (i : Instant) : Prop where
  year : i.year ≠ Int64.minValue
  month : i.month ≤ 12
  day : i.day ≤ 31
  hour : i.hour < 24
  minute : i.minute < 60
  second : i.second ≤ 60

/- Only the least year has a magnitude that is not read. -/
theorem natAbs_year_lt
    {year : Int64}
    (h : year ≠ Int64.minValue) :
    year.toInt.natAbs < 2 ^ 63 := by
  have hLower := Int64.le_toInt year
  have hUpper := Int64.toInt_lt year
  have hNe : year.toInt ≠ -2 ^ 63 := by
    intro hEq
    apply h
    rw [← Int64.ofInt_toInt year, hEq]
    rfl
  omega

/- A field is read back. -/
theorem readField?_renderField
    {limit : Nat}
    {n : UInt8}
    (hLimit : limit < 100)
    (h : n.toNat ≤ limit) :
    readField? limit (renderField n) = some n.toNat := by
  have hLength : (renderField n).length = 2 :=
    length_padded_two (Nat.lt_of_le_of_lt h hLimit)
  unfold readField?
  rw [if_pos hLength, renderField, readNat?_padded]
  simp [Option.filter, h]

/- A separator is not in a field. -/
theorem notMem_renderField
    (n : UInt8)
    {c : Char}
    (h : c.isDigit = false) :
    c ∉ renderField n :=
  (allDigits_padded 2 n.toNat).notMem h

/- A date is read back. -/
theorem readDate?_fields
    {i : Instant}
    (h : i.Writable) :
    readDate?
        (padded 4 i.year.toInt.natAbs ++
          '-' :: (renderField i.month ++
            '-' :: renderField i.day)) =
      some
        (i.year.toInt.natAbs, i.month.toNat, i.day.toNat) := by
  have hYear :
      readYear? (padded 4 i.year.toInt.natAbs) =
        some i.year.toInt.natAbs := by
    have hBound : i.year.toInt.natAbs < Nat.pow 2 63 :=
      natAbs_year_lt h.year
    simp [readYear?, readNat?_padded, Option.filter, hBound]
  have hMonth : i.month.toNat ≤ 12 := h.month
  have hDay : i.day.toNat ≤ 31 := h.day
  unfold readDate?
  rw [Text.splitFirst_append
    ((allDigits_padded 4 _).notMem (by decide))]
  simp only [Option.bind_eq_bind, Option.bind_some]
  rw [Text.splitFirst_append
    (notMem_renderField i.month (by decide))]
  simp only [Option.bind_some, hYear,
    readField?_renderField (by decide) hMonth,
    readField?_renderField (by decide) hDay]

/- A time of day is read back. -/
theorem readClock?_fields
    {i : Instant}
    (h : i.Writable) :
    readClock?
        (renderField i.hour ++
          ':' :: (renderField i.minute ++
            ':' :: renderField i.second)) =
      some (i.hour.toNat, i.minute.toNat, i.second.toNat) := by
  unfold readClock?
  rw [Text.splitFirst_append
    (notMem_renderField i.hour (by decide))]
  simp only [Option.bind_eq_bind, Option.bind_some]
  rw [Text.splitFirst_append
    (notMem_renderField i.minute (by decide))]
  have hHour : i.hour.toNat ≤ 23 := Nat.le_of_lt_succ h.hour
  have hMinute : i.minute.toNat ≤ 59 :=
    Nat.le_of_lt_succ h.minute
  have hSecond : i.second.toNat ≤ 60 := h.second
  simp only [Option.bind_some,
    readField?_renderField (by decide) hHour,
    readField?_renderField (by decide) hMinute,
    readField?_renderField (by decide) hSecond]

/- Digits have no sign in front. -/
theorem splitSign_of_allDigits
    {digits : List Char}
    (h : AllDigits digits)
    (hNe : digits ≠ [])
    (cs : List Char) :
    splitSign (digits ++ cs) = (false, digits ++ cs) := by
  rcases List.exists_cons_of_ne_nil hNe with ⟨c, rest, rfl⟩
  have hMinus : c ≠ '-' := h.head_ne (by decide)
  have hPlus : c ≠ '+' := h.head_ne (by decide)
  simp [splitSign, hMinus, hPlus]

/- The sign of a year is read back. -/
theorem splitSign_renderYear
    (year : Int)
    (cs : List Char) :
    splitSign (renderYear year ++ cs) =
      (decide (year < 0), padded 4 year.natAbs ++ cs) := by
  unfold renderYear
  by_cases hNeg : year < 0
  · simp [hNeg, splitSign]
  · have hNe : padded 4 year.natAbs ≠ [] := by
      simp [padded, digits_ne_nil]
    simpa [hNeg] using
      splitSign_of_allDigits (allDigits_padded 4 year.natAbs) hNe
        cs

/- The date and the time of day of a literal, with a sign. -/
theorem renderChars_eq
    (i : Instant) :
    i.renderChars =
      renderYear i.year.toInt ++
        ('-' :: (renderField i.month ++
          '-' :: renderField i.day) ++
        'T' :: (renderField i.hour ++
          ':' :: (renderField i.minute ++
            ':' :: renderField i.second) ++ ['Z'])) := by
  simp [renderChars]

/- An instant is read from its date and its time of day. -/
theorem parse?_render_eq
    (i : Instant) :
    parse? i.render =
      (do
        let (year, month, day) ←
          readDate?
            (padded 4 i.year.toInt.natAbs ++
              '-' :: (renderField i.month ++
                '-' :: renderField i.day))
        let (hour, minute, second) ←
          readClock?
            (renderField i.hour ++
              ':' :: (renderField i.minute ++
                ':' :: renderField i.second))
        some
          { year :=
              Int64.ofInt
                (if i.year.toInt < 0 then -(year : Int) else year)
            month := UInt8.ofNat month
            day := UInt8.ofNat day
            hour := UInt8.ofNat hour
            minute := UInt8.ofNat minute
            second := UInt8.ofNat second }) := by
  have hDate :
      'T' ∉ padded 4 i.year.toInt.natAbs ++
        '-' :: (renderField i.month ++
          '-' :: renderField i.day) := by
    simp [(allDigits_padded 4 _).notMem
        (by decide : 'T'.isDigit = false),
      notMem_renderField _ (by decide : 'T'.isDigit = false)]
  have hFraction :
      '.' ∉ renderField i.hour ++
        ':' :: (renderField i.minute ++
          ':' :: renderField i.second) := by
    simp [notMem_renderField _ (by decide : '.'.isDigit = false)]
  rw [parse?, render, String.toList_ofList, renderChars_eq]
  unfold parseChars?
  rw [splitSign_renderYear, ← List.append_assoc]
  simp only []
  rw [Text.splitFirst_append hDate]
  simp only [Option.bind_eq_bind, Option.bind_some, splitZone?,
    Text.dropLast?_append, dropFraction,
    Text.splitFirst_of_notMem hFraction, shift?, if_true,
    decide_eq_true_eq]

/- An instant is read back. -/
theorem parse?_render
    {i : Instant}
    (h : i.Writable) :
    parse? i.render = some i := by
  have hAbs :
      (if i.year.toInt < 0 then -(i.year.toInt.natAbs : Int)
          else i.year.toInt.natAbs) =
        i.year.toInt := by
    split <;> omega
  rw [parse?_render_eq, readDate?_fields h, readClock?_fields h]
  simp only [Option.bind_eq_bind, Option.bind_some,
    UInt8.ofNat_toNat, hAbs, Int64.ofInt_toInt]

end Instant

end StatementQuery
