import StatementQuery.Query.Node

/-
  How a store names entities and writes values.

  Key definitions include:
    * `Codec`
    * `Codec.encode?`
    * `Codec.verbatim`
-/

------------------------------------------------------------
-- Codecs
------------------------------------------------------------

namespace StatementQuery

/- The conventions of a store. -/
structure Codec where
  /- The store's identifier of a client's entity. -/
  normalizeEntity : Iri → Iri
  /- The client's identifier of a store's entity. -/
  denormalizeEntity : Iri → Iri
  /- The store's form of a value, for a fixed property if any. -/
  normalizeValue : Value → Option Iri → Value
  /- The value of a kind that an identifier stands for. -/
  decodeIri? : Iri → Kind → Option Value

namespace Codec

/- The store's form of a ground term. -/
def normalizeGround
    (codec : Codec)
    (property : Option Iri) :
    Ground → Ground
| .value v => .value (codec.normalizeValue v property)
| g => g

/- The node that stands for a value. -/
def encodeValue (codec : Codec) : Value → Node
| .entity e => .iri (codec.normalizeEntity e.iri)
| .iri i => .iri i
| .text content language => .lang content language
| .string content => .string content
| .externalId content => .string content
| .quantity q => .decimal q.amount
| .time t => .dateTime t.instant

/- The node that stands for a ground term, if there is one. -/
def encode? (codec : Codec) : Ground → Option Node
| .value v => some (codec.encodeValue v)
| _ => none

end Codec

end StatementQuery

------------------------------------------------------------
-- Identifiers As They Are
------------------------------------------------------------

namespace StatementQuery

namespace Codec

/- Read an identifier; an entity of unknown kind is an item. -/
def decodeVerbatim? (i : Iri) : Kind → Option Value
| .item | .entity | .value | .term => some (.item i)
| .property => some (.property i)
| .lexeme => some (.lexeme i)
| .iri | .shallowDataValue | .dataValue => some (.iri i)
| _ => none

/- The codec of a store that uses the client's identifiers. -/
def verbatim : Codec where
  normalizeEntity i := i
  denormalizeEntity i := i
  normalizeValue v _ := v
  decodeIri? := decodeVerbatim?

end Codec

end StatementQuery
