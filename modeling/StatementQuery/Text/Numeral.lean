/-
  Decimal numerals: digit strings and the numbers they
  denote.

  Key definitions include:
    * `Numeral.digits`
    * `Numeral.padded`
    * `Numeral.readNat?`
    * `Numeral.readInt?`
    * `Numeral.readInt64?`
    * `Numeral.readIndex?`
-/

------------------------------------------------------------
-- Writing Numerals
------------------------------------------------------------

namespace StatementQuery

namespace Numeral

/- The decimal digits of a number. -/
def digits (n : Nat) : List Char :=
  Nat.toDigits 10 n

/- The digits of a number, with zeros in front up to a width. -/
def padded (width n : Nat) : List Char :=
  List.replicate (width - (digits n).length) '0' ++ digits n

/- The digits of an integer, with `-` in front if negative. -/
def signed (n : Int) : List Char :=
  if n < 0 then '-' :: digits n.natAbs else digits n.natAbs

end Numeral

end StatementQuery

------------------------------------------------------------
-- Reading Numerals
------------------------------------------------------------

namespace StatementQuery

namespace Numeral

/- The number that a digit string denotes. -/
def value (cs : List Char) : Nat :=
  cs.foldl (fun n c => 10 * n + (c.toNat - '0'.toNat)) 0

/- Whether every character is one of the ten digits. -/
def allDigits (cs : List Char) : Bool :=
  cs.all Char.isDigit

/- A number written as one or more digits. -/
def readNat? (cs : List Char) : Option Nat :=
  if !cs.isEmpty && allDigits cs then some (value cs)
  else none

/- An integer: an optional sign, then one or more digits. -/
def readInt? : List Char → Option Int
| '-' :: cs => (readNat? cs).map fun n => -(n : Int)
| '+' :: cs => (readNat? cs).map Int.ofNat
| cs => (readNat? cs).map Int.ofNat

/- Whether an integer is a signed number of that many bits. -/
def fitsSigned (bits : Nat) (n : Int) : Bool :=
  let bound := Int.ofNat (Nat.pow 2 (bits - 1))
  n < bound && -bound ≤ n

/- An integer numeral in the range of signed 64-bit words. -/
def readInt64? (cs : List Char) : Option Int :=
  (readInt? cs).filter (fitsSigned 64)

/-
  A position: an optional `+`, then one or more digits, in
  the range of unsigned 64-bit words.
-/
def readIndex? : List Char → Option Nat
| '+' :: cs => (readNat? cs).filter (· < UInt64.size)
| cs => (readNat? cs).filter (· < UInt64.size)

end Numeral

end StatementQuery
