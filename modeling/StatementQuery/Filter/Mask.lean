import StatementQuery.Ground.Basic

/-
  Ranks of statements, and masks over snak kinds, ranks and
  datatypes.

  A mask has one bit for each alternative it can admit.

  Key definitions include:
    * `SnakKind`
    * `Rank`
    * `SnakMask`
    * `RankMask`
    * `DatatypeMask`
-/

------------------------------------------------------------
-- Snak Kinds And Ranks
------------------------------------------------------------

namespace StatementQuery

/- The three kinds of snaks. -/
inductive SnakKind where
| value
| someValue
| noValue
deriving DecidableEq

namespace SnakKind

/- The kind of all snaks of this kind. -/
def kind : SnakKind → Kind
| .value => .valueSnak
| .someValue => .someValueSnak
| .noValue => .noValueSnak

end SnakKind

namespace Kind

/- The kind of snaks whose terms are exactly a kind's. -/
def snakKind? : Kind → Option SnakKind
| .valueSnak => some .value
| .someValueSnak => some .someValue
| .noValueSnak => some .noValue
| _ => none

end Kind

/- The rank of a statement. -/
inductive Rank where
| preferred
| normal
| deprecated
deriving DecidableEq

namespace Rank

/- All ranks, in the order of their bits in a mask. -/
def all : List Rank :=
  [.preferred, .normal, .deprecated]

/- The identifier of a rank. -/
def iri : Rank → Iri
| .preferred => ⟨"http://wikiba.se/ontology#PreferredRank"⟩
| .normal => ⟨"http://wikiba.se/ontology#NormalRank"⟩
| .deprecated => ⟨"http://wikiba.se/ontology#DeprecatedRank"⟩

/- The rank that an identifier names. -/
def ofIri? (i : Iri) : Option Rank :=
  all.find? fun r => r.iri = i

end Rank

end StatementQuery

------------------------------------------------------------
-- Masks
------------------------------------------------------------

namespace StatementQuery

/- A set of `n` alternatives, one bit each. -/
abbrev Mask (n : Nat) := BitVec n

namespace Mask

/- The mask that admits nothing. -/
def none (n : Nat) : Mask n :=
  0#n

/- The mask that admits everything. -/
def all (n : Nat) : Mask n :=
  BitVec.allOnes n

/- The mask of the low bits of a number. -/
def ofBits (n bits : Nat) : Mask n :=
  BitVec.ofNat n bits

/- The mask that admits one alternative. -/
def single (n i : Nat) : Mask n :=
  BitVec.twoPow n i

/- Whether a mask admits nothing. -/
def isEmpty (m : Mask n) : Bool :=
  m == none n

/- Whether a mask admits everything. -/
def isAll (m : Mask n) : Bool :=
  m == all n

/- Whether a mask admits all that another one does. -/
def contains (m other : Mask n) : Bool :=
  m &&& other == other

/- Whether two masks admit something in common. -/
def intersects (m other : Mask n) : Bool :=
  m &&& other != none n

end Mask

/- The snak kinds that a filter admits. -/
abbrev SnakMask := Mask 3

namespace SnakMask

/- The mask of one snak kind. -/
def of : SnakKind → SnakMask
| .value => Mask.single 3 0
| .someValue => Mask.single 3 1
| .noValue => Mask.single 3 2

/- The mask of the snaks of a kind. -/
def ofKind (k : Kind) : SnakMask :=
  if k = .snak then Mask.all 3
  else (k.snakKind?.map of).getD (Mask.none 3)

end SnakMask

/- The ranks that a filter admits. -/
abbrev RankMask := Mask 3

namespace RankMask

/- The mask of one rank. -/
def of : Rank → RankMask
| .preferred => Mask.single 3 0
| .normal => Mask.single 3 1
| .deprecated => Mask.single 3 2

/- The ranks that a mask admits. -/
def ranks (m : RankMask) : List Rank :=
  Rank.all.filter fun r => Mask.contains m (of r)

end RankMask

/- The datatypes that a filter admits. -/
abbrev DatatypeMask := Mask 9

namespace DatatypeMask

/- The mask of one datatype. -/
def of : Datatype → DatatypeMask
| .entity .item => Mask.single 9 0
| .entity .property => Mask.single 9 1
| .entity .lexeme => Mask.single 9 2
| .iri => Mask.single 9 3
| .text => Mask.single 9 4
| .string => Mask.single 9 5
| .externalId => Mask.single 9 6
| .quantity => Mask.single 9 7
| .time => Mask.single 9 8

/- The mask of several datatypes. -/
def ofList (datatypes : List Datatype) : DatatypeMask :=
  datatypes.foldl (fun m d => m ||| of d) (Mask.none 9)

/- The mask of all entities. -/
def entities : DatatypeMask :=
  ofList [.entity .item, .entity .property, .entity .lexeme]

/- The mask of the datatypes whose values have a kind. -/
def ofKind (k : Kind) : DatatypeMask :=
  ofList (Datatype.all.filter fun d => d.kind ≤ k)

/- Whether a mask admits a datatype. -/
def admits (m : DatatypeMask) (d : Datatype) : Bool :=
  Mask.contains m (of d)

/- The datatypes that a mask admits. -/
def datatypes (m : DatatypeMask) : List Datatype :=
  Datatype.all.filter (admits m)

end DatatypeMask

end StatementQuery
