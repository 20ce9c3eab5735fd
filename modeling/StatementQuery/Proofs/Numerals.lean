import Mathlib.Algebra.Order.Ring.Int
import Mathlib.Data.List.Induction
import StatementQuery.Text.Numeral

/-
  Numerals and the numbers they denote.

  The digits of a number denote it, zeros in front make no
  difference, and a power of ten appends zeros.  What is read as
  a number is one or more digits, with a sign in front at most.

  Key definitions include:
    * `Numeral.AllDigits`

  Main declarations:
    * `Numeral.value_digits`
    * `Numeral.digits_mul_pow`
    * `Numeral.readNat?_eq_some_iff`
    * `Numeral.eq_of_value_eq`
    * `Numeral.of_mem_of_readInt?`
    * `Numeral.readIndex?_signed`
-/

------------------------------------------------------------
-- Digits
------------------------------------------------------------

namespace StatementQuery

namespace Numeral

/- Digits denote the number they are the digits of. -/
@[simp] theorem value_digits
    (n : Nat) :
    value (digits n) = n :=
  Nat.ofDigitChars_ten_toDigits

/- Digits denote a number place by place. -/
theorem value_append
    (cs ds : List Char) :
    value (cs ++ ds) =
      10 ^ ds.length * value cs + value ds := by
  have hAppend :
      value (cs ++ ds) =
        Nat.ofDigitChars 10 ds (value cs) :=
    Nat.ofDigitChars_append 0
  rw [hAppend, Nat.ofDigitChars_eq_ofDigitChars_zero]
  rfl

/- Zeros denote nothing. -/
theorem value_replicate_zero
    (n : Nat) :
    value (List.replicate n '0') = 0 := by
  have hZeros :
      value (List.replicate n '0') = 10 ^ n * 0 :=
    Nat.ofDigitChars_replicate_zero
  rw [hZeros, Nat.mul_zero]

/- A number has at least one digit. -/
theorem digits_ne_nil
    (n : Nat) :
    digits n ≠ [] :=
  Nat.toDigits_ne_nil

/- Ten times a number has a zero more at the end. -/
theorem digits_mul_ten
    {n : Nat}
    (h : 0 < n) :
    digits (n * 10) = digits n ++ ['0'] := by
  have hAppend :=
    Nat.toDigits_append_toDigits
      (b := 10) (n := n) (d := 0) (by decide) h (by decide)
  rw [Nat.toDigits_zero] at hAppend
  unfold digits
  rw [hAppend, Nat.add_zero, Nat.mul_comm]

/- A power of ten appends zeros. -/
theorem digits_mul_pow
    {n : Nat}
    (h : 0 < n)
    (z : Nat) :
    digits (n * 10 ^ z) = digits n ++ List.replicate z '0' := by
  induction z with
  | zero => simp
  | succ z ih =>
      have hPos : 0 < n * 10 ^ z :=
        Nat.mul_pos h (Nat.pow_pos (by decide))
      rw [Nat.pow_succ, ← Nat.mul_assoc, digits_mul_ten hPos, ih,
        List.append_assoc, List.replicate_succ']

/- The last digit is zero only for multiples of ten. -/
theorem getLast?_digits
    {n : Nat}
    (h : ¬ 10 ∣ n) :
    ∃ c, (digits n).getLast? = some c ∧ c ≠ '0' := by
  unfold digits
  have hMod : n % 10 ≠ 0 := fun hZero =>
    h (Nat.dvd_of_mod_eq_zero hZero)
  refine ⟨(n % 10).digitChar, ?_, ?_⟩
  · rw [Nat.toDigits_eq_if (by decide)]
    split
    · rename_i hLt
      simp [Nat.mod_eq_of_lt hLt]
    · simp
  · intro hChar
    exact hMod (Nat.digitChar_eq_zero.mp hChar)

/- Every character is a digit. -/
def AllDigits (cs : List Char) : Prop :=
  ∀ c ∈ cs, c.isDigit = true

/- The digits of a number are digits. -/
theorem allDigits_digits
    (n : Nat) :
    AllDigits (digits n) :=
  fun _ => Nat.isDigit_of_mem_toDigits (by decide) (by decide)

/- Zeros are digits. -/
theorem allDigits_replicate
    (n : Nat) :
    AllDigits (List.replicate n '0') := by
  intro c hc
  rw [List.eq_of_mem_replicate hc]
  rfl

/- Digits before digits are digits. -/
theorem AllDigits.append
    {cs ds : List Char}
    (hcs : AllDigits cs)
    (hds : AllDigits ds) :
    AllDigits (cs ++ ds) := by
  intro c hc
  rcases List.mem_append.mp hc with hc | hc
  · exact hcs c hc
  · exact hds c hc

/- A character other than a digit is not among digits. -/
theorem AllDigits.notMem
    {cs : List Char}
    (h : AllDigits cs)
    {c : Char}
    (hc : c.isDigit = false) :
    c ∉ cs := by
  intro hMem
  rw [h c hMem] at hc
  cases hc

/- Digits start with no character but a digit. -/
theorem AllDigits.head_ne
    {c d : Char}
    {cs : List Char}
    (h : AllDigits (c :: cs))
    (hd : d.isDigit = false) :
    c ≠ d := by
  rintro rfl
  exact h.notMem hd List.mem_cons_self

/- The digits are ten characters in a row. -/
theorem isDigit_iff
    {c : Char} :
    c.isDigit = true ↔ 48 ≤ c.toNat ∧ c.toNat ≤ 57 := by
  simp only [Char.isDigit, Bool.and_eq_true, decide_eq_true_eq,
    ge_iff_le, UInt32.le_iff_toNat_le]
  rfl

/- Digits with one digit more. -/
theorem value_concat
    (cs : List Char)
    (c : Char) :
    value (cs ++ [c]) =
      10 * value cs + (c.toNat - '0'.toNat) := by
  simp [value]

/- As many digits that denote the same number are the same. -/
theorem eq_of_value_eq
    {cs ds : List Char}
    (hcs : AllDigits cs)
    (hds : AllDigits ds)
    (hLength : cs.length = ds.length)
    (h : value cs = value ds) :
    cs = ds := by
  induction cs using List.reverseRecOn generalizing ds with
  | nil => exact (List.length_eq_zero_iff.mp hLength.symm).symm
  | append_singleton cs c ih =>
      rcases List.eq_nil_or_concat ds with rfl | ⟨ds, d, rfl⟩
      · simp at hLength
      · rw [List.concat_eq_append] at *
        have hc := isDigit_iff.mp (hcs c (by simp))
        have hd := isDigit_iff.mp (hds d (by simp))
        have hZero : '0'.toNat = 48 := rfl
        rw [value_concat, value_concat] at h
        have hInit : cs = ds :=
          ih (fun e he => hcs e (by simp [he]))
            (fun e he => hds e (by simp [he]))
            (by simpa using hLength) (by omega)
        have hLast : c = d := Char.toNat_inj.mp (by omega)
        rw [hInit, hLast]

end Numeral

end StatementQuery

------------------------------------------------------------
-- Reading Numerals
------------------------------------------------------------

namespace StatementQuery

namespace Numeral

/- Digits are read as the number they denote. -/
theorem readNat?_of_allDigits
    {cs : List Char}
    (h : AllDigits cs)
    (hNe : cs ≠ []) :
    readNat? cs = some (value cs) := by
  have hAll : allDigits cs = true := List.all_eq_true.mpr h
  simp [readNat?, hAll, hNe]

/- What is read as a number is one or more digits. -/
theorem readNat?_eq_some_iff
    {cs : List Char}
    {n : Nat} :
    readNat? cs = some n ↔
      AllDigits cs ∧ cs ≠ [] ∧ value cs = n := by
  constructor
  · intro h
    unfold readNat? at h
    split at h
    next hDigits =>
      simp only [Bool.and_eq_true, Bool.not_eq_true',
        List.isEmpty_eq_false_iff] at hDigits
      exact
        ⟨List.all_eq_true.mp hDigits.2, hDigits.1,
          Option.some.inj h⟩
    next => cases h
  · rintro ⟨hDigits, hNe, rfl⟩
    exact readNat?_of_allDigits hDigits hNe

/- The digits of a number are read as the number. -/
theorem readNat?_digits
    (n : Nat) :
    readNat? (digits n) = some n := by
  rw [readNat?_of_allDigits (allDigits_digits n)
    (digits_ne_nil n), value_digits]

/- Zeros in front make no difference. -/
theorem value_padded
    (width n : Nat) :
    value (padded width n) = n := by
  rw [padded, value_append, value_replicate_zero, value_digits]
  simp

/- Padded digits are digits. -/
theorem allDigits_padded
    (width n : Nat) :
    AllDigits (padded width n) :=
  (allDigits_replicate _).append (allDigits_digits n)

/- Padded digits are read as the number. -/
theorem readNat?_padded
    (width n : Nat) :
    readNat? (padded width n) = some n := by
  have hNe : padded width n ≠ [] := by
    simp [padded, digits_ne_nil]
  rw [readNat?_of_allDigits (allDigits_padded width n) hNe,
    value_padded]

/- A number below one hundred takes two places. -/
theorem length_padded_two
    {n : Nat}
    (h : n < 100) :
    (padded 2 n).length = 2 := by
  have hLength : (digits n).length ≤ 2 :=
    (Nat.length_toDigits_le_iff (by decide) (by decide)).mpr h
  simp only [padded, List.length_append, List.length_replicate]
  omega

/- A numeral has digits and a sign at most. -/
theorem of_mem_of_readInt?
    {cs : List Char}
    {n : Int}
    (h : readInt? cs = some n)
    {c : Char}
    (hc : c ∈ cs) :
    c.isDigit = true ∨ c = '-' ∨ c = '+' := by
  have hDigits :
      ∀ ds, readNat? ds ≠ none → c ∈ ds → c.isDigit = true := by
    intro ds hRead hMem
    rcases Option.ne_none_iff_exists'.mp hRead with ⟨m, hm⟩
    exact (readNat?_eq_some_iff.mp hm).1 c hMem
  unfold readInt? at h
  split at h
  · rcases List.mem_cons.mp hc with rfl | hc
    · simp
    · exact Or.inl
        (hDigits _ (fun hNone => by simp [hNone] at h) hc)
  · rcases List.mem_cons.mp hc with rfl | hc
    · simp
    · exact Or.inl
        (hDigits _ (fun hNone => by simp [hNone] at h) hc)
  · exact Or.inl
      (hDigits _ (fun hNone => by simp [hNone] at h) hc)

/- The numbers of 64 bits are those that fit 64 bits. -/
theorem fitsSigned_toInt
    (n : Int64) :
    fitsSigned 64 n.toInt = true := by
  have hBound : Int.ofNat (Nat.pow 2 (64 - 1)) = 2 ^ 63 := rfl
  simp only [fitsSigned, hBound, Bool.and_eq_true,
    decide_eq_true_eq]
  exact ⟨Int64.toInt_lt n, Int64.le_toInt n⟩

/- A position is read back from the text of an integer. -/
theorem readIndex?_signed
    {n : Nat}
    (h : n < UInt64.size) :
    readIndex? (signed n) = some n := by
  have hSigned : signed (n : Int) = digits n := by
    simp [signed]
  rcases List.exists_cons_of_ne_nil (digits_ne_nil n) with
    ⟨c, rest, hCons⟩
  have hDigits := allDigits_digits n
  have hRead := readNat?_digits n
  rw [hCons] at hDigits hRead
  have hPlus : c ≠ '+' := hDigits.head_ne (by decide)
  rw [hSigned, hCons]
  simp [readIndex?, hPlus, hRead, Option.filter, h]

end Numeral

end StatementQuery
