import Mathlib.Algebra.Order.Ring.Int
import Mathlib.Data.Nat.Multiplicity
import StatementQuery.Decimal.Basic
import StatementQuery.Proofs.Numerals

/-
  The normal forms of decimals.

  A decimal other than zero is its normal form with zeros
  appended, and is that of no other decimal from which no zero
  can be dropped.  So what it says as a whole number depends on
  its normal form alone.

  Key definitions include:
    * `Decimal.Pads`
    * `Decimal.IsTrimmed`

  Main declarations:
    * `Decimal.exists_pads_normalize`
    * `Decimal.IsTrimmed.eq_of_pads`
    * `Decimal.toInt?_normalize`
-/

------------------------------------------------------------
-- Normal Forms
------------------------------------------------------------

namespace StatementQuery

namespace Decimal

/- The zeros at the end of a number are its factors of ten. -/
theorem trailingZeros_mul_pow
    {n : Nat}
    (h : ¬ 10 ∣ n)
    (z : Nat) :
    trailingZeros (n * 10 ^ z) = z := by
  have hPos : 0 < n :=
    Nat.pos_of_ne_zero fun hZero => h (hZero ▸ Nat.dvd_zero 10)
  rcases Numeral.getLast?_digits h with ⟨c, hLast, hNe⟩
  have hHead : (Numeral.digits n).reverse.head? = some c := by
    rw [List.head?_reverse, hLast]
  unfold trailingZeros
  rw [Numeral.digits_mul_pow hPos, List.reverse_append,
    List.reverse_replicate]
  cases hRev : (Numeral.digits n).reverse with
  | nil => simp [hRev] at hHead
  | cons d ds =>
      have hd : d = c := by
        simpa [hRev] using hHead
      subst hd
      rw [List.takeWhile_append_of_pos]
      · simp [hNe]
      · intro e he
        simp [List.eq_of_mem_replicate he]

/- The second decimal is the first with zeros at its end. -/
structure Pads (e d : Decimal) (z : Nat) : Prop where
  unscaled : d.unscaled = e.unscaled * 10 ^ z
  scale : d.scale.toInt = e.scale.toInt + z

/-
  A decimal other than zero from which no zero can be dropped:
  there is none at its end, or it has the least scale.
-/
structure IsTrimmed (d : Decimal) : Prop where
  ne_zero : d.unscaled ≠ 0
  last : ¬ 10 ∣ d.unscaled.natAbs ∨ d.scale = Int64.minValue

namespace Pads

variable {d e f : Decimal} {y z : Nat}

/- A decimal is itself without any zero. -/
theorem refl
    (d : Decimal) :
    Pads d d 0 :=
  ⟨by simp, by simp⟩

/- Zeros are appended to zeros. -/
theorem trans
    (h : Pads d e y)
    (h' : Pads e f z) :
    Pads d f (y + z) := by
  constructor
  · rw [h'.unscaled, h.unscaled, pow_add, mul_assoc]
  · rw [h'.scale, h.scale]
    push_cast
    ring

/- Only zero is zero with zeros at its end. -/
theorem unscaled_ne_zero
    (h : Pads e d z)
    (hNe : e.unscaled ≠ 0) :
    d.unscaled ≠ 0 := by
  rw [h.unscaled]
  exact mul_ne_zero hNe (by positivity)

end Pads

/- The normal form of zero. -/
theorem normalize_of_eq_zero
    {d : Decimal}
    (h : d.unscaled = 0) :
    d.normalize = ⟨0, 0⟩ := by
  simp [normalize, h]

/-
  A number other than zero is one that ten does not divide,
  times a power of ten.
-/
theorem exists_mul_pow
    {n : Int}
    (h : n ≠ 0) :
    ∃ (m : Int) (z : Nat),
      ¬ 10 ∣ m.natAbs ∧ n = m * 10 ^ z := by
  have hAbs : n.natAbs ≠ 0 := by
    simpa using h
  rcases
      Nat.exists_eq_pow_mul_and_not_dvd hAbs 10
        (by decide) with
    ⟨z, k, hNot, hEq⟩
  rcases Int.natAbs_eq n with hPos | hNeg
  · refine ⟨k, z, by simpa using hNot, ?_⟩
    rw [hPos, hEq]
    push_cast
    exact mul_comm _ _
  · refine ⟨-k, z, by simpa using hNot, ?_⟩
    rw [hNeg, hEq]
    push_cast
    rw [neg_mul, mul_comm]

/- How many zeros are dropped, of those that there are. -/
theorem dropped_eq
    {d : Decimal}
    {m : Int}
    {z : Nat}
    (hNot : ¬ 10 ∣ m.natAbs)
    (hEq : d.unscaled = m * 10 ^ z) :
    d.dropped =
      min z (d.scale.toInt - Int64.minValue.toInt).toNat := by
  have hZeros : trailingZeros d.unscaled.natAbs = z := by
    rw [hEq, Int.natAbs_mul, Int.natAbs_pow]
    exact trailingZeros_mul_pow hNot z
  rw [dropped, hZeros]

/- Dropping zeros divides the unscaled integer. -/
theorem unscaled_normalize
    {d : Decimal}
    {m : Int}
    (h : d.unscaled ≠ 0)
    (hEq : d.unscaled = m * 10 ^ d.dropped) :
    d.normalize.unscaled = m := by
  have hDiv : d.unscaled.tdiv (10 ^ d.dropped) = m := by
    rw [hEq]
    exact Int.mul_tdiv_cancel _ (by positivity)
  simp [normalize, h, hDiv]

/- Dropping zeros lowers the scale, which stays in its range. -/
theorem scale_normalize
    {d : Decimal}
    (h : d.unscaled ≠ 0) :
    d.normalize.scale.toInt = d.scale.toInt - d.dropped := by
  have hDropped :
      d.dropped ≤ (d.scale.toInt - Int64.minValue.toInt).toNat :=
    Nat.min_le_right _ _
  have hMin := Int64.toInt_minValue
  have hLow := Int64.le_toInt d.scale
  have hHigh := Int64.toInt_lt d.scale
  have hFits :=
    @Int64.toInt_ofInt_of_le (d.scale.toInt - d.dropped)
      (by omega) (by omega)
  simpa [normalize, h] using hFits

/-
  A decimal other than zero is its normal form with zeros
  appended, and no further zero can be dropped from that.
-/
theorem exists_pads_normalize
    {d : Decimal}
    (h : d.unscaled ≠ 0) :
    d.normalize.IsTrimmed ∧ ∃ z, Pads d.normalize d z := by
  rcases exists_mul_pow h with ⟨m, z, hNot, hEq⟩
  have hDropped := dropped_eq hNot hEq
  have hScale := scale_normalize h
  -- The zeros that are kept stay with the unscaled integer.
  have hSplit :
      d.unscaled = m * 10 ^ (z - d.dropped) * 10 ^ d.dropped := by
    rw [mul_assoc, ← pow_add, Nat.sub_add_cancel (by omega), hEq]
  have hUnscaled := unscaled_normalize h hSplit
  have hPads : Pads d.normalize d d.dropped :=
    ⟨by rw [hUnscaled]; exact hSplit, by omega⟩
  refine ⟨⟨?_, ?_⟩, d.dropped, hPads⟩
  · intro hZero
    apply h
    rw [hPads.unscaled, hZero, zero_mul]
  · by_cases hAll : d.dropped = z
    · left
      rw [hUnscaled, hAll]
      simpa using hNot
    · right
      have hMin := Int64.toInt_minValue
      have hLow := Int64.le_toInt d.scale
      apply Int64.toInt.inj
      omega

/-
  No decimal has more zeros appended to it than a trimmed one to
  give the same: the trimmed one would end in a zero, so it would
  have the least scale and the other one a lesser.
-/
theorem IsTrimmed.zeros_le
    {d e f : Decimal}
    {y z : Nat}
    (hd : d.IsTrimmed)
    (h : Pads d f y)
    (h' : Pads e f z) :
    z ≤ y := by
  by_contra hLess
  have hMul : d.unscaled = e.unscaled * 10 ^ (z - y) := by
    have hPow : (10 : Int) ^ y ≠ 0 := by positivity
    apply mul_right_cancel₀ hPow
    rw [← h.unscaled, h'.unscaled, mul_assoc, ← pow_add,
      Nat.sub_add_cancel (by omega)]
  have hTen : 10 ∣ d.unscaled.natAbs := by
    rw [hMul, Int.natAbs_mul, Int.natAbs_pow]
    exact Dvd.dvd.mul_left (dvd_pow_self 10 (by omega)) _
  rcases hd.last with hNot | hLeast
  · exact hNot hTen
  · have hScale := h.scale
    have hScale' := h'.scale
    have hLow := Int64.le_toInt e.scale
    rw [hLeast, Int64.toInt_minValue] at hScale
    omega

/- No two trimmed decimals have the same zeros appended to them. -/
theorem IsTrimmed.eq_of_pads
    {d e f : Decimal}
    {y z : Nat}
    (hd : d.IsTrimmed)
    (he : e.IsTrimmed)
    (h : Pads d f y)
    (h' : Pads e f z) :
    d = e := by
  obtain rfl : y = z :=
    le_antisymm (he.zeros_le h' h) (hd.zeros_le h h')
  have hUnscaled : d.unscaled = e.unscaled := by
    have hPow : (10 : Int) ^ y ≠ 0 := by positivity
    exact mul_right_cancel₀ hPow
      (h.unscaled.symm.trans h'.unscaled)
  have hScale : d.scale = e.scale := by
    apply Int64.toInt.inj
    have hSum := h.scale.symm.trans h'.scale
    omega
  cases d
  cases e
  simp only at hUnscaled hScale
  rw [hUnscaled, hScale]

/- The normal form is the one trimmed decimal to append zeros to. -/
theorem normalize_eq_of_pads
    {d e : Decimal}
    {z : Nat}
    (h : Pads e d z)
    (he : e.IsTrimmed) :
    d.normalize = e := by
  rcases exists_pads_normalize (h.unscaled_ne_zero he.ne_zero) with
    ⟨hTrimmed, y, hPads⟩
  exact hTrimmed.eq_of_pads he hPads h

/- Appending zeros to a decimal keeps its normal form. -/
theorem Pads.normalize_eq
    {d e : Decimal}
    {z : Nat}
    (h : Pads e d z) :
    d.normalize = e.normalize := by
  by_cases hZero : e.unscaled = 0
  · have hZero' : d.unscaled = 0 := by
      rw [h.unscaled, hZero, zero_mul]
    rw [normalize_of_eq_zero hZero, normalize_of_eq_zero hZero']
  · rcases exists_pads_normalize hZero with
      ⟨hTrimmed, y, hPads⟩
    exact normalize_eq_of_pads (hPads.trans h) hTrimmed

/- A normal form is its own normal form. -/
@[simp] theorem normalize_normalize
    (d : Decimal) :
    d.normalize.normalize = d.normalize := by
  by_cases hZero : d.unscaled = 0
  · rw [normalize_of_eq_zero hZero, normalize_of_eq_zero rfl]
  · rcases exists_pads_normalize hZero with ⟨_, _, hPads⟩
    exact hPads.normalize_eq.symm

/- Being the same number is having the same normal form. -/
theorem same_iff
    (d e : Decimal) :
    d.same e = true ↔ d.normalize = e.normalize := by
  simp [same]

end Decimal

end StatementQuery

------------------------------------------------------------
-- Whole Numbers
------------------------------------------------------------

namespace StatementQuery

namespace Decimal

/- Zeros at the end add to the width. -/
theorem Pads.width_eq
    {d e : Decimal}
    {z : Nat}
    (h : Pads e d z)
    (hNe : e.unscaled ≠ 0) :
    d.width = e.width + z := by
  have hPos : 0 < e.unscaled.natAbs := Int.natAbs_pos.mpr hNe
  have hAbs : d.unscaled.natAbs = e.unscaled.natAbs * 10 ^ z := by
    rw [h.unscaled, Int.natAbs_mul, Int.natAbs_pow]
    rfl
  unfold width
  rw [hAbs, Numeral.digits_mul_pow hPos, List.length_append,
    List.length_replicate]

/-
  The whole number that a decimal with zeros appended is, if
  it has no digit after the point without them.
-/
theorem Pads.truncate?_eq
    {d e : Decimal}
    {z : Nat}
    (h : Pads e d z)
    (hNe : e.unscaled ≠ 0)
    (hWhole : e.scale.toInt ≤ 0) :
    d.truncate? =
      if e.width - e.scale.toInt > 19 then none
      else some (e.unscaled * 10 ^ (-e.scale.toInt).toNat) := by
  have hWidth := h.width_eq hNe
  have hScale := h.scale
  have hPos : 0 < e.width :=
    List.length_pos_of_ne_nil (Numeral.digits_ne_nil _)
  unfold truncate?
  rw [if_neg (h.unscaled_ne_zero hNe)]
  by_cases hWide : e.width - e.scale.toInt > 19
  · rw [if_pos (by omega), if_pos hWide]
  · rw [if_neg (by omega), if_neg hWide, if_neg (by omega),
      h.unscaled]
    by_cases hNeg : d.scale.toInt ≤ 0
    · rw [if_pos hNeg]
      have hExp :
          (-e.scale.toInt).toNat = z + d.scale.toInt.natAbs := by
        omega
      rw [hExp, pow_add, mul_assoc]
      simp
    · rw [if_neg hNeg]
      have hExp :
          z = (-e.scale.toInt).toNat + d.scale.toInt.natAbs := by
        omega
      have hSplit :
          e.unscaled * 10 ^ z =
            e.unscaled * 10 ^ (-e.scale.toInt).toNat *
              10 ^ d.scale.toInt.natAbs := by
        rw [mul_assoc, ← pow_add, ← hExp]
      rw [hSplit]
      simp

/- A decimal is a whole number when its normal form is. -/
theorem toInt?_normalize
    (d : Decimal) :
    d.normalize.toInt? = d.toInt? := by
  unfold toInt? isInteger
  rw [normalize_normalize]
  by_cases hScale : d.normalize.scale.toInt ≤ 0
  · simp only [hScale, decide_true, if_true]
    by_cases hZero : d.unscaled = 0
    · rw [normalize_of_eq_zero hZero]
      simp [truncate?, hZero]
    · rcases exists_pads_normalize hZero with
        ⟨hTrimmed, z, hPads⟩
      rw [hPads.truncate?_eq hTrimmed.ne_zero hScale,
        (Pads.refl _).truncate?_eq hTrimmed.ne_zero hScale]
  · simp [hScale]

/- A whole number has no digit after the point. -/
theorem isInteger_ofInt
    (n : Int) :
    (ofInt n).isInteger = true := by
  by_cases hZero : n = 0
  · rw [isInteger, normalize_of_eq_zero hZero]
    rfl
  · have hNe : (ofInt n).unscaled ≠ 0 := hZero
    rcases exists_pads_normalize hNe with ⟨_, z, hPads⟩
    have hScale : (0 : Int) = (ofInt n).normalize.scale.toInt + z :=
      hPads.scale
    simp only [isInteger, decide_eq_true_eq]
    omega

/- A whole number of at most nineteen digits is read back. -/
theorem toInt?_ofInt
    {n : Int}
    (h : n.natAbs < 10 ^ 19) :
    (ofInt n).toInt? = some n := by
  unfold toInt?
  rw [if_pos (isInteger_ofInt n)]
  by_cases hZero : n = 0
  · simp [truncate?, ofInt, hZero]
  · have hTruncate :=
      (Pads.refl (ofInt n)).truncate?_eq hZero (le_refl 0)
    have hWidth : (ofInt n).width ≤ 19 :=
      (Nat.length_toDigits_le_iff (by decide)
        (by decide)).mpr h
    have hScale : (ofInt n).scale.toInt = 0 := rfl
    rw [hTruncate, hScale, if_neg (by omega)]
    simp [ofInt]

end Decimal

end StatementQuery
