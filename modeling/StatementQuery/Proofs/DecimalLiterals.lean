import Mathlib.Algebra.Order.Field.Power
import Mathlib.Algebra.Order.Field.Rat
import StatementQuery.Proofs.Literals
import StatementQuery.Query.Node

/-
  Decimal literals, as texts and as numbers.

  A literal is a sign, digits with a point among them, and an
  exponent if there is one.  A text has at most one such
  spelling, so the number that it denotes is well defined.  The
  literal of a decimal denotes that decimal, and decimals have
  one literal exactly if they are the same number.  It has an
  exponent exactly if the number is other than zero and below
  one millionth.

  Key definitions include:
    * `Decimal.toRat`
    * `Decimal.Spelling`
    * `Decimal.Spelling.number`

  Main declarations:
    * `Decimal.toRat_eq_iff`
    * `Decimal.Spelling.text_injective`
    * `Decimal.exists_spelling`
    * `Node.decimal_spelled`
-/

------------------------------------------------------------
-- Decimals As Numbers
------------------------------------------------------------

namespace StatementQuery

namespace Decimal

open Numeral

/- The number that a decimal stands for. -/
def toRat (d : Decimal) : ℚ :=
  d.unscaled * 10 ^ (-d.scale.toInt)

/- A larger scale stands for a smaller power of ten. -/
theorem ten_zpow_neg_scale
    {s t : Int}
    {z : Nat}
    (h : t = s + z) :
    (10 : ℚ) ^ (-s) = 10 ^ z * 10 ^ (-t) := by
  rw [← zpow_natCast, ← zpow_add₀ (by norm_num), h]
  congr 1
  ring

/- Zeros at the end move the point back. -/
theorem Pads.toRat_eq
    {d e : Decimal}
    {z : Nat}
    (h : Pads e d z) :
    d.toRat = e.toRat := by
  rw [toRat, toRat, ten_zpow_neg_scale h.scale, h.unscaled]
  push_cast
  ring

/- A normal form is the same number. -/
theorem toRat_normalize
    (d : Decimal) :
    d.normalize.toRat = d.toRat := by
  by_cases hZero : d.unscaled = 0
  · simp [normalize_of_eq_zero hZero, toRat, hZero]
  · rcases exists_pads_normalize hZero with ⟨_, z, hPads⟩
    exact hPads.toRat_eq.symm

/- So is the number at a scale that is not negative. -/
theorem toRat_expand
    (d : Decimal) :
    d.expand.toRat = d.toRat := by
  rcases exists_pads_expand d with ⟨z, hPads⟩
  exact hPads.toRat_eq

/-
  Of two decimals that are one number, the one with the larger
  scale has the zeros that the other one lacks.
-/
theorem pads_of_toRat_eq
    {d e : Decimal}
    (h : d.toRat = e.toRat)
    (hScale : e.scale.toInt ≤ d.scale.toInt) :
    Pads e d (d.scale.toInt - e.scale.toInt).toNat := by
  have hShift :
      d.scale.toInt =
        e.scale.toInt + (d.scale.toInt - e.scale.toInt).toNat := by
    omega
  rw [toRat, toRat, ten_zpow_neg_scale hShift, ← mul_assoc] at h
  have hPow : (10 : ℚ) ^ (-d.scale.toInt) ≠ 0 :=
    zpow_ne_zero _ (by norm_num)
  have hCast := mul_right_cancel₀ hPow h
  exact ⟨by exact_mod_cast hCast, hShift⟩

/- Trimmed decimals that are one number are the same. -/
theorem IsTrimmed.eq_of_toRat_eq
    {d e : Decimal}
    (hd : d.IsTrimmed)
    (he : e.IsTrimmed)
    (h : d.toRat = e.toRat) :
    d = e := by
  rcases le_total e.scale.toInt d.scale.toInt with hLe | hLe
  · exact hd.eq_of_pads he (Pads.refl d) (pads_of_toRat_eq h hLe)
  · exact
      (he.eq_of_pads hd (Pads.refl e)
        (pads_of_toRat_eq h.symm hLe)).symm

/- A decimal is zero if its digits are. -/
theorem toRat_eq_zero_iff
    (d : Decimal) :
    d.toRat = 0 ↔ d.unscaled = 0 := by
  simp [toRat, zpow_ne_zero]

/- Decimals are one number if they have one normal form. -/
theorem toRat_eq_iff
    (d e : Decimal) :
    d.toRat = e.toRat ↔ d.normalize = e.normalize := by
  constructor
  · intro h
    by_cases hd : d.unscaled = 0
    · have he : e.unscaled = 0 := by
        rwa [← toRat_eq_zero_iff, ← h, toRat_eq_zero_iff]
      rw [normalize_of_eq_zero hd, normalize_of_eq_zero he]
    · have he : e.unscaled ≠ 0 := by
        rwa [ne_eq, ← toRat_eq_zero_iff, ← h, toRat_eq_zero_iff]
      rw [← toRat_normalize d, ← toRat_normalize e] at h
      exact
        (exists_pads_normalize hd).1.eq_of_toRat_eq
          (exists_pads_normalize he).1 h
  · intro h
    rw [← toRat_normalize d, h, toRat_normalize]

end Decimal

end StatementQuery

------------------------------------------------------------
-- Spellings
------------------------------------------------------------

namespace StatementQuery

namespace Decimal

open Numeral

/- The factor that a sign stands for. -/
def signFactor (isNegative : Bool) : ℚ :=
  if isNegative then -1 else 1

/-
  A way to write a number: a sign, digits, a point with more
  digits unless there are none, and an exponent.
-/
structure Spelling where
  isNegative : Bool
  lead : List Char
  trail : List Char
  exponent : Option Int
  lead_digits : AllDigits lead
  lead_ne_nil : lead ≠ []
  trail_digits : AllDigits trail
  /- No zero ends the digits after the point. -/
  trail_trimmed : trail.getLast? ≠ some '0'

namespace Spelling

/- The text of a spelling. -/
def text (s : Spelling) : List Char :=
  signedText s.isNegative
    (s.lead ++ pointText s.trail ++ exponentText s.exponent)

/- The number that a spelling denotes. -/
def number (s : Spelling) : ℚ :=
  signFactor s.isNegative * value (s.lead ++ s.trail) *
    10 ^ (s.exponent.getD 0 - s.trail.length)

end Spelling

/- Exponents are written differently. -/
theorem renderExponent_injective :
    Function.Injective renderExponent := by
  intro e f h
  apply Option.some.inj
  rw [← readInt?_renderExponent e, h, readInt?_renderExponent]

/- A sign is told apart from digits. -/
theorem eq_of_signedText_eq
    {a b : Bool}
    {cs ds : List Char}
    (hcs : AllDigits cs)
    (hds : AllDigits ds)
    (h : signedText a cs = signedText b ds) :
    a = b ∧ cs = ds := by
  cases a <;> cases b
  · exact ⟨rfl, h⟩
  · have hMinus : '-' ∈ cs := by
      rw [show cs = '-' :: ds from h]
      exact List.mem_cons_self
    exact absurd hMinus (hcs.notMem (by decide))
  · have hMinus : '-' ∈ ds := by
      rw [show ds = '-' :: cs from h.symm]
      exact List.mem_cons_self
    exact absurd hMinus (hds.notMem (by decide))
  · exact ⟨rfl, List.tail_eq_of_cons_eq h⟩

namespace Spelling

/- The exponent is cut off a text at its mark. -/
theorem splitExponent_text
    (s : Spelling) :
    splitExponent s.text =
      (signedText s.isNegative (s.lead ++ pointText s.trail),
        s.exponent.map renderExponent) := by
  rw [text, signedText_append]
  apply splitExponent_append
  · exact notMem_magnitude _ s.lead_digits s.trail_digits
      (by decide) (by decide) (by decide)
  · exact notMem_magnitude _ s.lead_digits s.trail_digits
      (by decide) (by decide) (by decide)

/- A text has one spelling. -/
theorem text_injective
    {s t : Spelling}
    (h : s.text = t.text) :
    s = t := by
  have hCut := congrArg splitExponent h
  rw [splitExponent_text, splitExponent_text] at hCut
  rcases Prod.mk.inj hCut with ⟨hBase, hExponent⟩
  have hPoint := congrArg splitPoint hBase
  rw [splitPoint_signedText _ s.lead_digits s.trail_digits,
    splitPoint_signedText _ t.lead_digits t.trail_digits] at hPoint
  rcases Prod.mk.inj hPoint with ⟨hDigits, hPlaces⟩
  rcases eq_of_signedText_eq
      (s.lead_digits.append s.trail_digits)
      (t.lead_digits.append t.trail_digits) hDigits with
    ⟨hSign, hAll⟩
  rcases List.append_inj' hAll hPlaces with ⟨hLead, hTrail⟩
  have hSame :=
    Option.map_injective renderExponent_injective hExponent
  cases s
  cases t
  simp only at hSign hLead hTrail hSame
  simp only [hSign, hLead, hTrail, hSame]

/- Unless ten divides a number, its digits do not end in zero. -/
theorem getLast?_drop_ne
    {zeros n k : Nat}
    (hEnd : 10 ∣ n → zeros + (digits n).length ≤ k) :
    ((List.replicate zeros '0' ++ digits n).drop k).getLast? ≠
      some '0' := by
  rw [List.getLast?_drop]
  split
  next => simp
  next hShort =>
    have hNot : ¬ 10 ∣ n := by
      intro hTen
      simp [hEnd hTen] at hShort
    rcases getLast?_digits hNot with ⟨c, hLast, hNe⟩
    simp [List.getLast?_append, hLast, hNe]

/-
  The digits of a number after some zeros, cut by the point
  behind the first `k` of them.
-/
def cut
    (isNegative : Bool)
    (zeros n k : Nat)
    (exponent : Option Int)
    (hCut : 0 < k)
    (hEnd : 10 ∣ n → zeros + (digits n).length ≤ k) :
    Spelling where
  isNegative := isNegative
  lead := (List.replicate zeros '0' ++ digits n).take k
  trail := (List.replicate zeros '0' ++ digits n).drop k
  exponent := exponent
  lead_digits c hc :=
    (allDigits_replicate zeros).append (allDigits_digits n) c
      (List.mem_of_mem_take hc)
  lead_ne_nil := by
    simp [digits_ne_nil, Nat.pos_iff_ne_zero.mp hCut]
  trail_digits c hc :=
    (allDigits_replicate zeros).append (allDigits_digits n) c
      (List.mem_of_mem_drop hc)
  trail_trimmed := getLast?_drop_ne hEnd

/- Where the point is cut in, it moves by the digits behind it. -/
theorem number_cut
    (isNegative : Bool)
    (zeros n k : Nat)
    (exponent : Option Int)
    (hCut : 0 < k)
    (hEnd : 10 ∣ n → zeros + (digits n).length ≤ k) :
    (cut isNegative zeros n k exponent hCut hEnd).number =
      signFactor isNegative * n *
        10 ^
          (exponent.getD 0 -
            (zeros + (digits n).length - k : Nat)) := by
  have hValue :
      value (List.replicate zeros '0' ++ digits n) = n := by
    simp [value_append, value_replicate_zero]
  simp only [number, cut, List.take_append_drop, hValue,
    List.length_drop, List.length_append, List.length_replicate]

end Spelling

end Decimal

end StatementQuery

------------------------------------------------------------
-- Spellings Of Decimals
------------------------------------------------------------

namespace StatementQuery

namespace Decimal

open Numeral

/-
  Without exponent, the digits are filled up with zeros so that
  one of them is in front of the point.
-/
theorem renderPlain_eq
    (n places : Nat) :
    renderPlain (digits n) places =
      (List.replicate (places + 1 - (digits n).length) '0' ++
          digits n).take (max 1 ((digits n).length - places)) ++
        pointText
          ((List.replicate (places + 1 - (digits n).length) '0' ++
            digits n).drop
              (max 1 ((digits n).length - places))) := by
  have hLength : 0 < (digits n).length :=
    List.length_pos_iff.mpr (digits_ne_nil n)
  unfold renderPlain
  split
  next hZero =>
    obtain rfl : places = 0 := by omega
    have hMax : max 1 (digits n).length = (digits n).length := by
      omega
    have hNone : 0 + 1 - (digits n).length = 0 := by
      omega
    simp [hMax, hNone, pointText]
  next hPos =>
    split
    next hInside =>
      have hMax :
          max 1 ((digits n).length - places) =
            (digits n).length - places := by
        omega
      have hNone : places + 1 - (digits n).length = 0 := by
        omega
      have hDrop :
          (digits n).drop ((digits n).length - places) ≠ [] := by
        simp only [ne_eq, List.drop_eq_nil_iff]
        omega
      simp [hMax, hNone, pointText, hDrop]
    next hOutside =>
      have hMax : max 1 ((digits n).length - places) = 1 := by
        omega
      have hZeros :
          places + 1 - (digits n).length =
            places - (digits n).length + 1 := by
        omega
      simp [hMax, hZeros, List.replicate_succ, pointText,
        digits_ne_nil]

/- With an exponent, one digit is in front of the point. -/
theorem renderScientific_eq
    (n : Nat)
    (scale : Int) :
    renderScientific (digits n) scale =
      (digits n).take 1 ++ pointText ((digits n).drop 1) ++
        exponentText (some ((digits n).length - 1 - scale)) := by
  simp only [renderScientific, pointText, List.drop_eq_nil_iff,
    exponentText]

/- The sign and the digits of an integer. -/
theorem signFactor_mul_natAbs
    (n : Int) :
    signFactor (n < 0) * n.natAbs = n := by
  by_cases hNeg : n < 0
  · have hAbs : (n.natAbs : Int) = -n := by omega
    have hCast : (n.natAbs : ℚ) = -n := by
      rw [← Int.cast_natCast, hAbs, Int.cast_neg]
    simp [signFactor, hNeg, hCast]
  · have hAbs : (n.natAbs : Int) = n := by omega
    have hCast : (n.natAbs : ℚ) = n := by
      rw [← Int.cast_natCast, hAbs]
    simp [signFactor, hNeg, hCast]

/-
  A decimal that has zeros at its end only if it is whole is
  written by a spelling of it, which has an exponent exactly if
  there are more than five zeros behind the point.
-/
theorem exists_spelling
    {d : Decimal}
    (hScale : 0 ≤ d.scale.toInt)
    (hEnd : 10 ∣ d.unscaled.natAbs → d.scale.toInt = 0) :
    ∃ s : Spelling,
      d.renderChars = s.text ∧ s.number = d.toRat ∧
        (s.exponent = none ↔ d.scale.toInt ≤ d.width + 5) := by
  rcases Int.eq_ofNat_of_zero_le hScale with ⟨places, hPlaces⟩
  have hText :
      d.renderChars =
        signedText (d.unscaled < 0)
          (renderMagnitude (digits d.unscaled.natAbs)
            d.scale.toInt) := by
    unfold renderChars
    split
    next hZero =>
      rw [hEnd (by simp [hZero]), hZero]
      rfl
    next => simp [signedText]
  have hLow : ¬ d.scale.toInt < -15 := by
    omega
  unfold renderMagnitude at hText
  rw [if_neg hLow] at hText
  split at hText
  next hLarge =>
    have hShort :
        10 ∣ d.unscaled.natAbs →
          0 + (digits d.unscaled.natAbs).length ≤ 1 := by
      intro hTen
      have hWhole := hEnd hTen
      omega
    refine
      ⟨Spelling.cut (d.unscaled < 0) 0 d.unscaled.natAbs 1
        (some
          ((digits d.unscaled.natAbs).length - 1 - d.scale.toInt))
        Nat.one_pos hShort, ?_, ?_, ?_⟩
    · rw [hText, renderScientific_eq]
      rfl
    · rw [Spelling.number_cut, signFactor_mul_natAbs, toRat]
      congr 2
      have hLength :
          0 < (digits d.unscaled.natAbs).length :=
        List.length_pos_iff.mpr (digits_ne_nil _)
      simp only [Option.getD_some]
      omega
    · simp only [Spelling.cut, reduceCtorEq, false_iff, width]
      omega
  next hSmall =>
    have hWhole :
        10 ∣ d.unscaled.natAbs →
          places + 1 - (digits d.unscaled.natAbs).length +
              (digits d.unscaled.natAbs).length ≤
            max 1 ((digits d.unscaled.natAbs).length - places) := by
      intro hTen
      have hZero := hEnd hTen
      omega
    refine
      ⟨Spelling.cut (d.unscaled < 0)
        (places + 1 - (digits d.unscaled.natAbs).length)
        d.unscaled.natAbs
        (max 1 ((digits d.unscaled.natAbs).length - places)) none
        (by omega) hWhole, ?_, ?_, ?_⟩
    · rw [hText, hPlaces, renderPlain_eq]
      simp [Spelling.cut, Spelling.text, exponentText]
    · rw [Spelling.number_cut, signFactor_mul_natAbs, toRat]
      congr 2
      simp only [Option.getD_none]
      omega
    · simp only [Spelling.cut, true_iff, width]
      omega

/- A number has as many digits as powers of ten are below it. -/
theorem pow_width_le
    {d : Decimal}
    (h : d.unscaled ≠ 0) :
    10 ^ (d.width - 1) ≤ d.unscaled.natAbs ∧
      d.unscaled.natAbs < 10 ^ d.width := by
  have hWidth : 0 < d.width :=
    List.length_pos_iff.mpr (digits_ne_nil _)
  have hIff :
      ∀ k, 0 < k → (d.width ≤ k ↔ d.unscaled.natAbs < 10 ^ k) :=
    fun k hk => Nat.length_toDigits_le_iff (by decide) hk
  refine ⟨?_, (hIff _ hWidth).mp le_rfl⟩
  by_cases hOne : d.width - 1 = 0
  · rw [hOne, pow_zero]
    exact Int.natAbs_pos.mpr h
  · by_contra hLt
    have hLe := (hIff _ (Nat.pos_of_ne_zero hOne)).mpr (by omega)
    omega

/-
  A decimal other than zero is below one millionth exactly if
  there are more than five zeros behind its point.
-/
theorem millionth_le_iff
    {d : Decimal}
    (h : d.unscaled ≠ 0) :
    10 ^ (-6 : ℤ) ≤ |d.toRat| ↔
      d.scale.toInt ≤ d.width + 5 := by
  rcases pow_width_le h with ⟨hAbove, hBelow⟩
  have hPow : (0 : ℚ) < 10 ^ (-d.scale.toInt) := by
    positivity
  have hAbs :
      |d.toRat| = d.unscaled.natAbs * 10 ^ (-d.scale.toInt) := by
    rw [toRat, abs_mul, abs_of_pos hPow, ← Int.cast_abs,
      Int.abs_eq_natAbs, Int.cast_natCast]
  have hShift :
      ∀ k : Nat, (10 : ℚ) ^ k * 10 ^ (-d.scale.toInt) =
        10 ^ (k - d.scale.toInt) := by
    intro k
    rw [← zpow_natCast, ← zpow_add₀ (by norm_num), sub_eq_add_neg]
  constructor
  · intro hLe
    by_contra hLarge
    have hLess : |d.toRat| < 10 ^ (d.width - d.scale.toInt) := by
      rw [hAbs, ← hShift]
      gcongr
      exact_mod_cast hBelow
    have hSmall :
        (10 : ℚ) ^ (d.width - d.scale.toInt) ≤ 10 ^ (-6 : ℤ) :=
      zpow_le_zpow_right₀ (by norm_num) (by omega)
    exact absurd (hLess.trans_le hSmall) (not_lt.mpr hLe)
  · intro hLe
    have hWidth : 0 < d.width :=
      List.length_pos_iff.mpr (digits_ne_nil _)
    calc (10 : ℚ) ^ (-6 : ℤ)
        ≤ 10 ^ (((d.width - 1 : Nat) : Int) - d.scale.toInt) :=
          zpow_le_zpow_right₀ (by norm_num) (by omega)
      _ = 10 ^ (d.width - 1) * 10 ^ (-d.scale.toInt) :=
          (hShift _).symm
      _ ≤ |d.toRat| := by
          rw [hAbs]
          gcongr
          exact_mod_cast hAbove

/- A literal has zeros at its end only if it is whole. -/
theorem scale_eq_zero_of_dvd
    {d : Decimal}
    (h : 10 ∣ d.normalize.expand.unscaled.natAbs) :
    d.normalize.expand.scale.toInt = 0 := by
  by_cases hZero : d.unscaled = 0
  · rw [normalize_of_eq_zero hZero]
    rfl
  · unfold expand at h ⊢
    split at h
    next hNeg =>
      rw [if_pos hNeg]
      rfl
    next hNonneg =>
      -- Zeros are kept only at the least scale, a negative one.
      rcases (exists_pads_normalize hZero).1.last with
        hNot | hLeast
      · exact absurd h hNot
      · rw [hLeast] at hNonneg
        exact absurd (by decide) hNonneg

end Decimal

namespace Node

open Decimal

/-
  The literal of a decimal is a decimal literal with one
  spelling, which denotes the decimal; it has an exponent exactly
  if the decimal is other than zero and below one millionth.
  Decimals have one literal exactly if they are one number.
-/
theorem decimal_spelled
    (d : Decimal) :
    ∃ s : Spelling,
      decimal d = typed (String.ofList s.text) Xsd.decimal ∧
        (∀ t : Spelling, t.text = s.text → t = s) ∧
        s.number = d.toRat ∧
        (s.exponent = none ↔
          d.toRat = 0 ∨ 10 ^ (-6 : ℤ) ≤ |d.toRat|) ∧
        ∀ e : Decimal, decimal e = decimal d ↔ e.toRat = d.toRat := by
  have hSpelled :
      ∀ e : Decimal, ∃ s : Spelling,
        decimal e = typed (String.ofList s.text) Xsd.decimal ∧
          s.number = e.toRat ∧
          (s.exponent = none ↔
            e.normalize.expand.scale.toInt ≤
              e.normalize.expand.width + 5) := by
    intro e
    rcases exists_spelling (scale_expand_nonneg e.normalize)
        scale_eq_zero_of_dvd with
      ⟨s, hText, hNumber, hExponent⟩
    refine ⟨s, ?_, ?_, hExponent⟩
    · rw [decimal, Decimal.render, hText]
    · rw [hNumber, toRat_expand, toRat_normalize]
  rcases hSpelled d with ⟨s, hText, hNumber, hExponent⟩
  refine
    ⟨s, hText, fun t h => Spelling.text_injective h, hNumber, ?_, ?_⟩
  · have hRat : d.normalize.expand.toRat = d.toRat := by
      rw [toRat_expand, toRat_normalize]
    rw [hExponent, ← hRat, toRat_eq_zero_iff]
    by_cases hZero : d.normalize.expand.unscaled = 0
    · have hScale := scale_eq_zero_of_dvd (d := d) (by simp [hZero])
      simp only [hZero, hScale, true_or, iff_true]
      positivity
    · rw [millionth_le_iff hZero]
      simp [hZero]
  · intro e
    constructor
    · intro hSame
      rcases hSpelled e with ⟨t, hText', hNumber', _⟩
      rw [hText, hText'] at hSame
      have hTexts : t.text = s.text := by
        simpa [typed, String.ofList_inj] using hSame
      rw [← hNumber', Spelling.text_injective hTexts, hNumber]
    · intro hSame
      rw [decimal, decimal, (toRat_eq_iff e d).mp hSame]

/- One ten-millionth is written with an exponent. -/
example :
    decimal ⟨1, 7⟩ = typed "1E-7" Xsd.decimal := by
  decide

end Node

end StatementQuery
