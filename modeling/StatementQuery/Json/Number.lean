import StatementQuery.Text.Numeral

/-
  Numbers of JSON texts.

  A number is read as a significand of 64 bits and a power of
  ten.  Digits that do not fit into the significand only move
  the power.  A number is out of range when it is too large
  for a double.

  Key definitions include:
    * `JsonError`
    * `JsonNumber`
    * `JsonNumber.scan`
    * `JsonNumber.natural?`
    * `JsonNumber.isOutOfRange`
-/

------------------------------------------------------------
-- Errors
------------------------------------------------------------

namespace StatementQuery

/- What is wrong with a JSON text. -/
inductive JsonError where
/- The text is malformed. -/
| malformed
/- A value is of the wrong type or range. -/
| mismatch
/- The text ends early. -/
| truncated
deriving DecidableEq

end StatementQuery

------------------------------------------------------------
-- Numbers
------------------------------------------------------------

namespace StatementQuery

/- A number as it is written. -/
structure JsonNumber where
  isNegative : Bool
  whole : List Char
  fraction : Option (List Char)
  exponent : Option Int
deriving DecidableEq

namespace JsonNumber

/- The number written without sign, fraction and exponent. -/
def natural? (n : JsonNumber) : Option Nat :=
  if n.isNegative || n.fraction.isSome || n.exponent.isSome then
    none
  else some (Numeral.value n.whole)

/- A significand and the power of ten it stands for. -/
structure Scaled where
  significand : Nat
  power : Int
deriving DecidableEq

namespace Scaled

/- Whether one more digit fits into the significand. -/
def fits (s : Scaled) (d : Char) : Bool :=
  10 * s.significand + Numeral.value [d] < UInt64.size

/- Take up digits before the point. -/
def takeWhole (s : Scaled) : List Char → Scaled
| [] => s
| d :: ds =>
    if s.fits d then
      takeWhole
        ⟨10 * s.significand + Numeral.value [d], s.power⟩ ds
    else ⟨s.significand, s.power + (d :: ds).length⟩

/- Take up digits after the point. -/
def takeFraction (s : Scaled) : List Char → Scaled
| [] => s
| d :: ds =>
    if s.fits d then
      takeFraction
        ⟨10 * s.significand + Numeral.value [d], s.power - 1⟩ ds
    else s

end Scaled

/- A number as a significand and a power of ten. -/
def scaled (n : JsonNumber) : Scaled :=
  let s :=
    (Scaled.takeWhole ⟨0, 0⟩ n.whole).takeFraction
      (n.fraction.getD [])
  ⟨s.significand, s.power + n.exponent.getD 0⟩

/- A whole number cut to 53 bits, a half going to even. -/
def roundToDouble (n : Nat) : Nat :=
  if n < Nat.pow 2 53 then n
  else
    let unit := Nat.pow 2 (n.log2 - 52)
    let q := n / unit
    let r := n % unit
    if 2 * r < unit || (2 * r = unit && q % 2 = 0) then q * unit
    else (q + 1) * unit

/- Whether a number is too large for a double. -/
def isOutOfRange (n : JsonNumber) : Bool :=
  let s := n.scaled
  if s.power < 0 then false
  else if 308 < s.power then s.significand ≠ 0
  else
    Nat.pow 2 1024 ≤
      roundToDouble
        (roundToDouble s.significand *
          roundToDouble (Nat.pow 10 s.power.toNat))

end JsonNumber

end StatementQuery

------------------------------------------------------------
-- Scanning Numbers
------------------------------------------------------------

namespace StatementQuery

namespace JsonNumber

/- The digits at the start of a text, and the rest. -/
def spanDigits (cs : List Char) : List Char × List Char :=
  (cs.takeWhile Char.isDigit, cs.dropWhile Char.isDigit)

/- What is wrong when a digit should come next. -/
def missingDigit : List Char → JsonError
| [] => .truncated
| _ => .malformed

/- One or more digits. -/
def scanDigits
    (cs : List Char) :
    Except JsonError (List Char × List Char) :=
  if (spanDigits cs).1.isEmpty then .error (missingDigit cs)
  else .ok (spanDigits cs)

/- Digits without a needless zero in front. -/
def scanWhole
    (cs : List Char) :
    Except JsonError (List Char × List Char) := do
  let (digits, rest) ← scanDigits cs
  if digits.head? = some '0' && digits.length ≠ 1 then
    .error .malformed
  else .ok (digits, rest)

/- A point and digits, if there is a point. -/
def scanFraction :
    List Char → Except JsonError (Option (List Char) × List Char)
| '.' :: cs => do
    let (digits, rest) ← scanDigits cs
    .ok (some digits, rest)
| cs => .ok (none, cs)

/- An optional sign: whether it is a minus, and the rest. -/
def scanSign : List Char → Bool × List Char
| '+' :: cs => (false, cs)
| '-' :: cs => (true, cs)
| cs => (false, cs)

/- The digits of an exponent, with its sign. -/
def scanPower
    (cs : List Char) :
    Except JsonError (Option Int × List Char) := do
  let (isNegative, cs) := scanSign cs
  let (digits, rest) ← scanDigits cs
  let n : Int := Numeral.value digits
  .ok (some (if isNegative then -n else n), rest)

/- An exponent, if there is one. -/
def scanExponent :
    List Char → Except JsonError (Option Int × List Char)
| 'e' :: cs => scanPower cs
| 'E' :: cs => scanPower cs
| cs => .ok (none, cs)

/- A minus, if there is one. -/
def scanMinus : List Char → Bool × List Char
| '-' :: cs => (true, cs)
| cs => (false, cs)

/- A number at the start of a text, and the rest. -/
def scan
    (cs : List Char) :
    Except JsonError (JsonNumber × List Char) := do
  let (isNegative, cs) := scanMinus cs
  let (whole, cs) ← scanWhole cs
  let (fraction, cs) ← scanFraction cs
  let (exponent, cs) ← scanExponent cs
  .ok (⟨isNegative, whole, fraction, exponent⟩, cs)

end JsonNumber

end StatementQuery

------------------------------------------------------------
-- What Is Left After A Number
------------------------------------------------------------

namespace StatementQuery

namespace JsonNumber

/- Digits are taken off a text. -/
theorem scanDigits_length
    {cs digits rest : List Char}
    (hScan : scanDigits cs = .ok (digits, rest)) :
    rest.length < cs.length := by
  unfold scanDigits spanDigits at hScan
  split at hScan
  · cases hScan
  · rename_i hDigits
    cases hScan
    have hAppend :=
      congrArg List.length
        (List.takeWhile_append_dropWhile
          (p := Char.isDigit) (l := cs))
    have hPos : 0 < (cs.takeWhile Char.isDigit).length :=
      List.length_pos_iff.mpr (by simpa using hDigits)
    rw [List.length_append] at hAppend
    omega

/- A whole part is taken off a text. -/
theorem scanWhole_length
    {cs digits rest : List Char}
    (hScan : scanWhole cs = .ok (digits, rest)) :
    rest.length < cs.length := by
  unfold scanWhole at hScan
  cases hDigits : scanDigits cs with
  | error e => simp [hDigits, bind, Except.bind] at hScan
  | ok found =>
      simp only [hDigits, bind, Except.bind] at hScan
      split at hScan
      · cases hScan
      · cases hScan
        exact scanDigits_length hDigits

/- A fraction is taken off a text. -/
theorem scanFraction_length
    {cs rest : List Char}
    {fraction : Option (List Char)}
    (hScan : scanFraction cs = .ok (fraction, rest)) :
    rest.length ≤ cs.length := by
  unfold scanFraction at hScan
  split at hScan
  · rename_i ds
    cases hDigits : scanDigits ds with
    | error e => simp [hDigits, bind, Except.bind] at hScan
    | ok found =>
        simp only [hDigits, bind, Except.bind] at hScan
        cases hScan
        have hLength := scanDigits_length hDigits
        simp only [List.length_cons]
        omega
  · cases hScan
    exact Nat.le_refl _

/- A sign is taken off a text. -/
theorem scanSign_length
    (cs : List Char) :
    (scanSign cs).2.length ≤ cs.length := by
  unfold scanSign
  split <;> simp

/- The digits of an exponent are taken off a text. -/
theorem scanPower_length
    {cs rest : List Char}
    {power : Option Int}
    (hScan : scanPower cs = .ok (power, rest)) :
    rest.length ≤ cs.length := by
  unfold scanPower at hScan
  have hSign := scanSign_length cs
  cases hDigits : scanDigits (scanSign cs).2 with
  | error e => simp [hDigits, bind, Except.bind] at hScan
  | ok found =>
      simp only [hDigits, bind, Except.bind] at hScan
      cases hScan
      have hLength := scanDigits_length hDigits
      omega

/- An exponent is taken off a text. -/
theorem scanExponent_length
    {cs rest : List Char}
    {exponent : Option Int}
    (hScan : scanExponent cs = .ok (exponent, rest)) :
    rest.length ≤ cs.length := by
  unfold scanExponent at hScan
  split at hScan
  · have hLength := scanPower_length hScan
    simp only [List.length_cons]
    omega
  · have hLength := scanPower_length hScan
    simp only [List.length_cons]
    omega
  · cases hScan
    exact Nat.le_refl _

/- A minus is taken off a text. -/
theorem scanMinus_length
    (cs : List Char) :
    (scanMinus cs).2.length ≤ cs.length := by
  unfold scanMinus
  split <;> simp

/- A number is taken off a text. -/
theorem scan_length
    {cs rest : List Char}
    {n : JsonNumber}
    (hScan : scan cs = .ok (n, rest)) :
    rest.length < cs.length := by
  unfold scan at hScan
  have hMinus := scanMinus_length cs
  cases hWhole : scanWhole (scanMinus cs).2 with
  | error e => simp [hWhole, bind, Except.bind] at hScan
  | ok whole =>
      have hLeft := scanWhole_length hWhole
      simp only [hWhole, bind, Except.bind] at hScan
      cases hFraction : scanFraction whole.2 with
      | error e => simp [hFraction] at hScan
      | ok fraction =>
          have hRight := scanFraction_length hFraction
          simp only [hFraction] at hScan
          cases hExponent : scanExponent fraction.2 with
          | error e => simp [hExponent] at hScan
          | ok exponent =>
              have hLast := scanExponent_length hExponent
              simp only [hExponent] at hScan
              cases hScan
              omega

end JsonNumber

end StatementQuery
