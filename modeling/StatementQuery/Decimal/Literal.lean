import StatementQuery.Decimal.Basic
import StatementQuery.Text.Split

/-
  The written form of decimals.

  Reading keeps the scale as written.  Writing places the
  point, except that numbers with more than five zeros after
  the point and numbers with more than fifteen zeros at the
  end are written with an exponent.

  Key definitions include:
    * `Decimal.parse?`
    * `Decimal.render`
-/

------------------------------------------------------------
-- Reading Decimals
------------------------------------------------------------

namespace StatementQuery

namespace Decimal

/-
  The part before the first exponent mark, and the part after
  it if there is one.
-/
def splitExponent :
    List Char → List Char × Option (List Char)
| [] => ([], none)
| c :: cs =>
    if c = 'e' || c = 'E' then ([], some cs)
    else
      let (base, exponent) := splitExponent cs
      (c :: base, exponent)

/- The exponent, zero if none is written. -/
def readExponent? : Option (List Char) → Option Int
| none => some 0
| some cs => (Numeral.readInt? cs).filter (Numeral.fitsSigned 128)

/-
  The base without its first point, and how many places the
  point moves.  Underscores do not count as places.
-/
def splitPoint (base : List Char) : List Char × Nat :=
  match Text.splitFirst '.' base with
  | none => (base, 0)
  | some (lead, trail) =>
      (lead ++ trail, (trail.filter (· ≠ '_')).length)

/- A number of digits and underscores, a digit first. -/
def readSpacedNat? (cs : List Char) : Option Nat :=
  if cs.head? = some '_' then none
  else if cs.isEmpty then none
  else if cs.all (fun c => c.isDigit || c = '_') then
    some (Numeral.value (cs.filter (· ≠ '_')))
  else none

/- An integer of digits and underscores. -/
def readSpacedInt? : List Char → Option Int
| '-' :: cs => (readSpacedNat? cs).map fun n => -(n : Int)
| '+' :: cs => (readSpacedNat? cs).map Int.ofNat
| cs => (readSpacedNat? cs).map Int.ofNat

/- Read a decimal. -/
def parseChars? (cs : List Char) : Option Decimal := do
  let (base, exponentPart) := splitExponent cs
  let exponent ← readExponent? exponentPart
  if base.isEmpty then none
  else
    let (digits, places) := splitPoint base
    let scale := (places : Int) - exponent
    if !Numeral.fitsSigned 64 scale then none
    else
      let unscaled ← readSpacedInt? digits
      some ⟨unscaled, Int64.ofInt scale⟩

/- Read a decimal. -/
def parse? (s : String) : Option Decimal :=
  parseChars? s.toList

end Decimal

end StatementQuery

------------------------------------------------------------
-- Writing Decimals
------------------------------------------------------------

namespace StatementQuery

namespace Decimal

/- An exponent with its sign. -/
def renderExponent (e : Int) : List Char :=
  (if e < 0 then '-' else '+') :: Numeral.digits e.natAbs

/- Digits with a point after the first, and an exponent. -/
def renderScientific
    (digits : List Char)
    (scale : Int) :
    List Char :=
  digits.take 1 ++
    (if digits.length ≤ 1 then [] else '.' :: digits.drop 1) ++
    'E' :: renderExponent ((digits.length : Int) - 1 - scale)

/- Digits with the point placed by the scale. -/
def renderPlain
    (digits : List Char)
    (scale : Int) :
    List Char :=
  if scale ≤ 0 then
    digits ++ List.replicate scale.natAbs '0'
  else if scale < digits.length then
    let lead := digits.length - scale.natAbs
    digits.take lead ++ '.' :: digits.drop lead
  else
    '0' :: '.' ::
      List.replicate (scale.natAbs - digits.length) '0' ++
      digits

/- The magnitude of a decimal other than zero. -/
def renderMagnitude
    (digits : List Char)
    (scale : Int) :
    List Char :=
  if scale > digits.length + 5 then
    renderScientific digits scale
  else if scale < -15 then
    digits ++ 'e' :: renderExponent (-scale)
  else renderPlain digits scale

/- Write a decimal. -/
def renderChars (d : Decimal) : List Char :=
  if d.unscaled = 0 then ['0']
  else
    let magnitude :=
      renderMagnitude
        (Numeral.digits d.unscaled.natAbs) d.scale.toInt
    if d.unscaled < 0 then '-' :: magnitude else magnitude

/- Write a decimal. -/
def render (d : Decimal) : String :=
  String.ofList d.renderChars

end Decimal

end StatementQuery
