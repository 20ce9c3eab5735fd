/-
  The kinds of terms, the constructors that build terms of a
  kind, and the datatypes of values.

  Kinds form a tree.  Concrete kinds are the kinds of ground
  values; the others only occur as the declared kind of a
  variable or as the expected kind of an argument slot.

  Key definitions include:
    * `Kind`
    * `Kind.lineage`
    * `Kind.meet`
    * `Constructor`
    * `Constructor.slots`
    * `Datatype`
-/

------------------------------------------------------------
-- Kinds
------------------------------------------------------------

namespace StatementQuery

/- The kind of a term. -/
inductive Kind where
| term
| value
| entity
| item
| property
| lexeme
| dataValue
| shallowDataValue
| iri
| text
| string
| externalId
| deepDataValue
| quantity
| time
| snak
| valueSnak
| someValueSnak
| noValueSnak
| statement
deriving DecidableEq

namespace Kind

/- All kinds; a kind comes after every kind above it. -/
def all : List Kind :=
  [.term, .value, .entity, .item, .property, .lexeme,
    .dataValue, .shallowDataValue, .iri, .text, .string,
    .externalId, .deepDataValue, .quantity, .time, .snak,
    .valueSnak, .someValueSnak, .noValueSnak, .statement]

/- The place of a kind in `Kind.all`. -/
def position : Kind → Nat
| .term => 0
| .value => 1
| .entity => 2
| .item => 3
| .property => 4
| .lexeme => 5
| .dataValue => 6
| .shallowDataValue => 7
| .iri => 8
| .text => 9
| .string => 10
| .externalId => 11
| .deepDataValue => 12
| .quantity => 13
| .time => 14
| .snak => 15
| .valueSnak => 16
| .someValueSnak => 17
| .noValueSnak => 18
| .statement => 19

/- The name under which a kind is displayed. -/
def name : Kind → String
| .term => "Term"
| .value => "Value"
| .entity => "Entity"
| .item => "Item"
| .property => "Property"
| .lexeme => "Lexeme"
| .dataValue => "DataValue"
| .shallowDataValue => "ShallowDataValue"
| .iri => "IRI"
| .text => "Text"
| .string => "String"
| .externalId => "ExternalId"
| .deepDataValue => "DeepDataValue"
| .quantity => "Quantity"
| .time => "Time"
| .snak => "Snak"
| .valueSnak => "ValueSnak"
| .someValueSnak => "SomeValueSnak"
| .noValueSnak => "NoValueSnak"
| .statement => "Statement"

/- The kinds a kind belongs to, from itself to the root. -/
def lineage : Kind → List Kind
| .term => [.term]
| .value => [.value, .term]
| .entity => [.entity, .value, .term]
| .item => [.item, .entity, .value, .term]
| .property => [.property, .entity, .value, .term]
| .lexeme => [.lexeme, .entity, .value, .term]
| .dataValue => [.dataValue, .value, .term]
| .shallowDataValue =>
    [.shallowDataValue, .dataValue, .value, .term]
| .iri =>
    [.iri, .shallowDataValue, .dataValue, .value, .term]
| .text =>
    [.text, .shallowDataValue, .dataValue, .value, .term]
| .string =>
    [.string, .shallowDataValue, .dataValue, .value, .term]
| .externalId =>
    [.externalId, .string, .shallowDataValue, .dataValue,
      .value, .term]
| .deepDataValue =>
    [.deepDataValue, .dataValue, .value, .term]
| .quantity =>
    [.quantity, .deepDataValue, .dataValue, .value, .term]
| .time =>
    [.time, .deepDataValue, .dataValue, .value, .term]
| .snak => [.snak, .term]
| .valueSnak => [.valueSnak, .snak, .term]
| .someValueSnak => [.someValueSnak, .snak, .term]
| .noValueSnak => [.noValueSnak, .snak, .term]
| .statement => [.statement, .term]

/- The kind directly above, absent for the root. -/
def parent? (k : Kind) : Option Kind :=
  k.lineage.tail.head?

/- `k ≤ l` when every term of kind `k` is one of kind `l`. -/
instance : LE Kind where
  le k l := l ∈ k.lineage

instance (k l : Kind) : Decidable (k ≤ l) :=
  inferInstanceAs (Decidable (l ∈ k.lineage))

/- `k < l` when `k ≤ l` and the two kinds differ. -/
instance : LT Kind where
  lt k l := k ≠ l ∧ k ≤ l

instance (k l : Kind) : Decidable (k < l) :=
  inferInstanceAs (Decidable (k ≠ l ∧ k ≤ l))

/- Two kinds are comparable when one belongs to the other. -/
def Comparable (k l : Kind) : Prop :=
  k ≤ l ∨ l ≤ k

instance (k l : Kind) : Decidable (Comparable k l) :=
  inferInstanceAs (Decidable (k ≤ l ∨ l ≤ k))

/- The more specific of two comparable kinds. -/
def meet (k l : Kind) : Option Kind :=
  if k ≤ l then some k
  else if l ≤ k then some l
  else none

/- The least kind above both kinds. -/
def join (k l : Kind) : Kind :=
  (k.lineage.find? (l ≤ ·)).getD .term

/- Whether ground values of exactly this kind exist. -/
def isConcrete : Kind → Bool
| .item | .property | .lexeme | .iri | .text | .string
| .externalId | .quantity | .time | .valueSnak
| .someValueSnak | .noValueSnak | .statement => true
| _ => false

/- Whether all terms of this kind are entities. -/
def isEntity (k : Kind) : Bool :=
  k ≤ .entity

/- Whether all terms of this kind are snaks. -/
def isSnak (k : Kind) : Bool :=
  k ≤ .snak

end Kind

end StatementQuery

------------------------------------------------------------
-- Entity Kinds
------------------------------------------------------------

namespace StatementQuery

/- The three kinds of entities. -/
inductive EntityKind where
| item
| property
| lexeme
deriving DecidableEq

namespace EntityKind

/- The kind of all entities of this kind. -/
def kind : EntityKind → Kind
| .item => .item
| .property => .property
| .lexeme => .lexeme

end EntityKind

end StatementQuery

------------------------------------------------------------
-- Constructors
------------------------------------------------------------

namespace StatementQuery

/- One argument position of a constructor. -/
structure Slot where
  kind : Kind
  isOptional : Bool
deriving DecidableEq

namespace Slot

/- A slot whose argument has to be present. -/
def required (k : Kind) : Slot :=
  ⟨k, false⟩

/- A slot whose argument may be absent. -/
def optional (k : Kind) : Slot :=
  ⟨k, true⟩

end Slot

/- The constructors of terms. -/
inductive Constructor where
| iri
| entity (e : EntityKind)
| text
| quantity
| time
| valueSnak
| someValueSnak
| noValueSnak
| statement
deriving DecidableEq

namespace Constructor

/- The kind of the terms a constructor builds. -/
def kind : Constructor → Kind
| .iri => .iri
| .entity e => e.kind
| .text => .text
| .quantity => .quantity
| .time => .time
| .valueSnak => .valueSnak
| .someValueSnak => .someValueSnak
| .noValueSnak => .noValueSnak
| .statement => .statement

/- The argument slots of a constructor, in order. -/
def slots : Constructor → List Slot
| .iri => [.required .string]
| .entity _ => [.required .iri]
| .text => [.required .string, .required .string]
| .quantity =>
    [.required .quantity, .optional .item,
      .optional .quantity, .optional .quantity]
| .time =>
    [.required .time, .optional .quantity,
      .optional .quantity, .optional .item]
| .valueSnak => [.required .property, .required .value]
| .someValueSnak => [.required .property]
| .noValueSnak => [.required .property]
| .statement => [.required .entity, .required .snak]

end Constructor

namespace Kind

/- The constructor of a kind, if it has one. -/
def constructor? : Kind → Option Constructor
| .iri => some .iri
| .item => some (.entity .item)
| .property => some (.entity .property)
| .lexeme => some (.entity .lexeme)
| .text => some .text
| .quantity => some .quantity
| .time => some .time
| .valueSnak => some .valueSnak
| .someValueSnak => some .someValueSnak
| .noValueSnak => some .noValueSnak
| .statement => some .statement
| _ => none

end Kind

end StatementQuery

------------------------------------------------------------
-- Datatypes
------------------------------------------------------------

namespace StatementQuery

/- The datatypes that the range of a property can name. -/
inductive Datatype where
| entity (e : EntityKind)
| iri
| text
| string
| externalId
| quantity
| time
deriving DecidableEq

namespace Datatype

/- All datatypes, in the order of their bits in a mask. -/
def all : List Datatype :=
  [.entity .item, .entity .property, .entity .lexeme, .iri,
    .text, .string, .externalId, .quantity, .time]

/- The kind of the values of a datatype. -/
def kind : Datatype → Kind
| .entity e => e.kind
| .iri => .iri
| .text => .text
| .string => .string
| .externalId => .externalId
| .quantity => .quantity
| .time => .time

/- The name under which a datatype is displayed. -/
def name (d : Datatype) : String :=
  d.kind.name

/- Whether the values of a datatype are entities. -/
def isEntity : Datatype → Bool
| .entity _ => true
| _ => false

end Datatype

namespace Kind

/- The datatype whose values are exactly the kind's terms. -/
def datatype? : Kind → Option Datatype
| .item => some (.entity .item)
| .property => some (.entity .property)
| .lexeme => some (.entity .lexeme)
| .iri => some .iri
| .text => some .text
| .string => some .string
| .externalId => some .externalId
| .quantity => some .quantity
| .time => some .time
| _ => none

end Kind

end StatementQuery
