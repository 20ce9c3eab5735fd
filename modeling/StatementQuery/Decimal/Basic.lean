import StatementQuery.Text.Numeral

/-
  Decimal numbers of any size.

  A decimal is an integer and a scale of 64 bits, and stands
  for the integer times ten to the minus scale.  The scale is
  part of the representation: `1.50` keeps its last zero.  Two
  decimals are the same number when their normal forms agree.

  Key definitions include:
    * `Decimal`
    * `Decimal.normalize`
    * `Decimal.same`
    * `Decimal.isInteger`
    * `Decimal.truncate64?`
-/

------------------------------------------------------------
-- Decimals And Their Normal Forms
------------------------------------------------------------

namespace StatementQuery

/- The number `unscaled * 10 ^ (-scale)`. -/
structure Decimal where
  unscaled : Int
  scale : Int64
deriving DecidableEq

namespace Decimal

/- An integer as a decimal of scale zero. -/
def ofInt (n : Int) : Decimal :=
  ⟨n, 0⟩

/- How many digits the unscaled integer has. -/
def width (d : Decimal) : Nat :=
  (Numeral.digits d.unscaled.natAbs).length

/- How many zeros end the digits of a number. -/
def trailingZeros (n : Nat) : Nat :=
  ((Numeral.digits n).reverse.takeWhile (· == '0')).length

/-
  How many zeros at the end of the unscaled integer are left
  out of the normal form: all of them, as far as the scale
  stays in its range.
-/
def dropped (d : Decimal) : Nat :=
  min (trailingZeros d.unscaled.natAbs)
    (d.scale.toInt - Int64.minValue.toInt).toNat

/-
  The same number without zeros at the end of its unscaled
  integer; zero has scale zero.
-/
def normalize (d : Decimal) : Decimal :=
  if d.unscaled = 0 then ⟨0, 0⟩
  else
    ⟨d.unscaled.tdiv (Nat.pow 10 d.dropped),
      Int64.ofInt (d.scale.toInt - d.dropped)⟩

/- Whether two decimals are the same number. -/
def same (d e : Decimal) : Bool :=
  d.normalize = e.normalize

/- The same number at a scale that is not negative. -/
def expand (d : Decimal) : Decimal :=
  if d.scale.toInt < 0 then
    ⟨d.unscaled * (Nat.pow 10 d.scale.toInt.natAbs), 0⟩
  else d

end Decimal

end StatementQuery

------------------------------------------------------------
-- Integers Among Decimals
------------------------------------------------------------

namespace StatementQuery

namespace Decimal

/- Whether a decimal is a whole number. -/
def isInteger (d : Decimal) : Bool :=
  d.normalize.scale.toInt ≤ 0

/-
  The integer part, rounded toward zero, of a decimal whose
  integer part has at most nineteen digits.
-/
def truncate? (d : Decimal) : Option Int :=
  if d.unscaled = 0 then some 0
  else if d.width - d.scale.toInt > 19 then none
  else if d.width ≤ d.scale.toInt then some 0
  else if d.scale.toInt ≤ 0 then
    some (d.unscaled * (Nat.pow 10 d.scale.toInt.natAbs))
  else
    some (d.unscaled.tdiv (Nat.pow 10 d.scale.toInt.natAbs))

/- The integer part as a signed 64-bit number. -/
def truncate64? (d : Decimal) : Option Int :=
  d.truncate?.filter (Numeral.fitsSigned 64)

/- The whole number that a decimal is. -/
def toInt? (d : Decimal) : Option Int :=
  if d.isInteger then d.truncate? else none

end Decimal

end StatementQuery
