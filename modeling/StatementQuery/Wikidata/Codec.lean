import StatementQuery.Mapping.Codec
import StatementQuery.Settings.Options
import StatementQuery.Text.Split

/-
  How Wikidata stores name entities.

  Clients name entities in one namespace, whatever namespace
  the store uses.  The first letter of an entity's local name
  tells items, properties and lexemes apart.

  Key definitions include:
    * `Wikidata.entityNamespace`
    * `Iri.localName?`
    * `Iri.rebase`
    * `Wikidata.codec`
-/

------------------------------------------------------------
-- Namespaces
------------------------------------------------------------

namespace StatementQuery

namespace Iri

/- An identifier in a namespace. -/
def inNamespace (base localName : String) : Iri :=
  ⟨base ++ localName⟩

/- The part of an identifier after a namespace. -/
def localName? (i : Iri) (base : String) : Option String :=
  (Text.afterStart? base.toList i.text.toList).map String.ofList

/- The part of an identifier after its last slash. -/
def lastSegment (i : Iri) : String :=
  match Text.splitLast (· = '/') i.text.toList with
  | some (_, _, segment) => String.ofList segment
  | none => i.text

/- Move an identifier from one namespace to another. -/
def rebase (i : Iri) (source target : String) : Iri :=
  match i.localName? source with
  | some localName => inNamespace target localName
  | none => i

end Iri

namespace EntityKind

/- The first letter of the local names of a kind of entities. -/
def letter : EntityKind → Char
| .item => 'Q'
| .property => 'P'
| .lexeme => 'L'

/- The kind of entities whose local names start with a letter. -/
def ofLetter? : Char → Option EntityKind
| 'Q' => some .item
| 'P' => some .property
| 'L' => some .lexeme
| _ => none

end EntityKind

end StatementQuery

------------------------------------------------------------
-- The Codec
------------------------------------------------------------

namespace StatementQuery

namespace Wikidata

/- The namespace in which clients name entities. -/
def entityNamespace : String :=
  "http://www.wikidata.org/entity/"

/- The kind of entities that a local name stands for. -/
def entityKind? (localName : String) : Option EntityKind :=
  localName.toList.head?.bind EntityKind.ofLetter?

/- The entity of a kind, as clients name it. -/
def clientEntity (kind : EntityKind) (localName : String) : Value :=
  .entity ⟨kind, Iri.inNamespace entityNamespace localName⟩

/- The entity that an identifier stands for by its letter. -/
def decodeByLetter? (localName? : Option String) : Option Value := do
  let localName ← localName?
  let kind ← entityKind? localName
  some (clientEntity kind localName)

/- The value of a kind that an identifier stands for. -/
def decodeIri?
    (config : WikidataConfig)
    (i : Iri)
    (k : Kind) :
    Option Value :=
  let localName? := i.localName? config.entityNamespace
  match k with
  | .item => localName?.map (clientEntity .item)
  | .property => localName?.map (clientEntity .property)
  | .lexeme => localName?.map (clientEntity .lexeme)
  | .entity => decodeByLetter? localName?
  | .value | .term => (decodeByLetter? localName?).or (some (.iri i))
  | .iri | .shallowDataValue | .dataValue => some (.iri i)
  | _ => none

/- A quantity without trailing zeros in its numbers. -/
def normalizeQuantity (q : Quantity) : Quantity where
  amount := q.amount.normalize
  unit := q.unit
  lower := q.lower.map Decimal.normalize
  upper := q.upper.map Decimal.normalize

/- A value without trailing zeros in its numbers. -/
def normalizeValue : Value → Value
| .quantity q => .quantity (normalizeQuantity q)
| v => v

/- The conventions of a Wikidata store. -/
def codec (config : WikidataConfig) : Codec where
  normalizeEntity i :=
    i.rebase entityNamespace config.entityNamespace
  denormalizeEntity i :=
    i.rebase config.entityNamespace entityNamespace
  normalizeValue v _ := normalizeValue v
  decodeIri? := decodeIri? config

end Wikidata

end StatementQuery
