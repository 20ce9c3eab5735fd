/-
  Supplies of fresh names.

  A supply lists some names and then counts up from zero after
  a base whose own trailing digits are dropped.  Such a supply
  never runs out, so a name outside any finite list is found
  among its first candidates.

  Key definitions include:
    * `NameSupply`
    * `NameSupply.take`
    * `NameSupply.fresh`
    * `sanitizeName`
-/

------------------------------------------------------------
-- Name Supplies
------------------------------------------------------------

namespace StatementQuery

/- Names to draw from: some given ones, then numbered ones. -/
structure NameSupply where
  listed : List String := []
  base : String

namespace NameSupply

/- A name without the digits at its end. -/
def stem (name : String) : String :=
  String.ofList
    (name.toList.reverse.dropWhile Char.isDigit).reverse

/- The name of a number after a base. -/
def numbered (base : String) (i : Nat) : String :=
  stem base ++ i.repr

/- The first numbered names of a supply. -/
def take (base : String) (count : Nat) : List String :=
  (List.range count).map (numbered base)

/- The first candidates, one more than there are `taken`. -/
def candidates
    (supply : NameSupply)
    (taken : List String) :
    List String :=
  supply.listed ++ take supply.base (taken.length + 1)

/- The first name of a supply that is not taken. -/
def fresh (supply : NameSupply) (taken : List String) : String :=
  ((supply.candidates taken).find? fun name =>
    !taken.contains name).getD supply.base

end NameSupply

end StatementQuery

------------------------------------------------------------
-- Names In Queries
------------------------------------------------------------

namespace StatementQuery

/- Whether a character may stand in the name of a variable. -/
def isNameChar (c : Char) : Bool :=
  c.isAlphanum || c = '_'

/- A name of letters, digits and underscores, not empty. -/
def sanitizeName (name : String) : String :=
  if name.toList.isEmpty then "v"
  else
    String.ofList
      (name.toList.map fun c => if isNameChar c then c else '_')

end StatementQuery
