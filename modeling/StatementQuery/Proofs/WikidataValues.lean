import StatementQuery.Proofs.Literals
import StatementQuery.Proofs.RowDecoding
import StatementQuery.Wikidata.Mapping

/-
  Values that the columns of Wikidata rows give back.

  An entity that clients name in their namespace is stored
  under the namespace of the store and read back from there;
  a column of entities of any kind tells the kind by the first
  letter of the local name.  Amounts and instants are read
  back from their literals.

  Key definitions include:
    * `Iri.IsClient`
    * `Wikidata.Expressible`

  Main declarations:
    * `Wikidata.legible_subject`
    * `Wikidata.legible_entity`
    * `Wikidata.legible_amount`
    * `Wikidata.legible_instant`
    * `Wikidata.legible_simple`
-/

------------------------------------------------------------
-- Expressible Statements
------------------------------------------------------------

namespace StatementQuery

/- An identifier in the namespace in which clients name entities. -/
def Iri.IsClient (i : Iri) : Prop :=
  ∃ localName,
    i = Iri.inNamespace Wikidata.entityNamespace localName

/- An entity whose kind shows in the first letter of its name. -/
def Entity.IsLettered (e : Entity) : Prop :=
  ∃ localName,
    e.iri = Iri.inNamespace Wikidata.entityNamespace localName ∧
      localName.toList.head? = some e.kind.letter

namespace Wikidata

/-
  A value that columns can hold: its entities are named in the
  namespace of clients, and its instant can be written.
-/
def ExpressibleValue : Value → Prop
| .entity e => e.iri.IsClient
| .quantity q => ∀ i, q.unit = some i → i.IsClient
| .time t =>
    t.instant.Writable ∧ ∀ i, t.calendar = some i → i.IsClient
| _ => True

/- A statement whose parts columns can hold. -/
structure Expressible (s : Statement) : Prop where
  subject : s.subject.IsLettered
  property : s.snak.property.IsClient
  value : ∀ p v, s.snak = .value p v → ExpressibleValue v

end Wikidata

end StatementQuery

------------------------------------------------------------
-- Entities
------------------------------------------------------------

namespace StatementQuery

namespace Iri

/- The local name of an identifier in a namespace. -/
@[simp] theorem localName?_inNamespace
    (base localName : String) :
    (inNamespace base localName).localName? base =
      some localName := by
  simp [Iri.localName?, inNamespace, Text.afterStart?_append]

/- Identifiers of one namespace are moved to another. -/
@[simp] theorem rebase_inNamespace
    (source target localName : String) :
    (inNamespace source localName).rebase source target =
      inNamespace target localName := by
  simp [rebase]

end Iri

namespace Wikidata

/- The kind of entities that a letter tells. -/
theorem entityKind?_of_head?
    {localName : String}
    {k : EntityKind}
    (h : localName.toList.head? = some k.letter) :
    entityKind? localName = some k := by
  rw [entityKind?, h]
  cases k <;> rfl

variable {config : WikidataConfig} {q : CompiledQuery}

/- A subject is read back from a column of entities. -/
theorem legible_subject
    (hCodec : q.codec = codec config)
    {name : String}
    {e : Entity}
    (h : e.IsLettered) :
    q.Legible (⟨name, .entity⟩, some (.value (.entity e))) := by
  rintro g ⟨⟩
  rcases e with ⟨k, i⟩
  rcases h with ⟨localName, hIri, hHead⟩
  simp only at hIri hHead
  subst hIri
  refine
    ⟨.entity ⟨k, _⟩, clientEntity k localName, rfl, ?_, ?_,
      k.kind_le_entity⟩
  · simp [CompiledQuery.decodeNode?, Codec.encodeValue, hCodec,
      codec, decodeIri?, decodeByLetter?,
      entityKind?_of_head? hHead]
  · simp [Value.same, clientEntity]

/- An entity is read back from a column of its kind. -/
theorem legible_entity
    (hCodec : q.codec = codec config)
    {name : String}
    {e : Entity}
    (h : e.iri.IsClient) :
    q.Legible
      (⟨name, e.kind.kind⟩, some (.value (.entity e))) := by
  rintro g ⟨⟩
  rcases e with ⟨k, i⟩
  rcases h with ⟨localName, hIri⟩
  simp only at hIri
  subst hIri
  refine
    ⟨.entity ⟨k, _⟩, clientEntity k localName, rfl, ?_, ?_,
      le_refl _⟩
  · cases k <;>
      simp [CompiledQuery.decodeNode?, Codec.encodeValue, hCodec,
        codec, decodeIri?, EntityKind.kind]
  · simp [Value.same, clientEntity]

end Wikidata

end StatementQuery

------------------------------------------------------------
-- Literals
------------------------------------------------------------

namespace StatementQuery

/- Date-times are told apart from numbers by their datatype. -/
theorem Xsd.dateTime_ne :
    dateTime ≠ decimal ∧ dateTime ≠ integer ∧
      dateTime ≠ double := by
  decide

namespace Wikidata

variable {config : WikidataConfig} {q : CompiledQuery}

/- An amount is read back from a column of quantities. -/
theorem legible_amount
    {name : String}
    {d : Decimal} :
    q.Legible (⟨name, .quantity⟩, some (.value (.amount d))) := by
  rintro g ⟨⟩
  rcases Decimal.exists_parse?_expand d with ⟨e, hParse, hSame⟩
  refine ⟨.amount d, .amount e, rfl, ?_, ?_, le_refl _⟩
  · simp [CompiledQuery.decodeNode?, Codec.encodeValue,
      Value.amount, Node.decimal, Node.typed, Literal.decode?,
      hParse]
  · simp [Value.same, Value.amount, Quantity.same, hSame,
      Quantity.sameBound]

/- An instant is read back from a column of times. -/
theorem legible_instant
    {name : String}
    {i : Instant}
    (h : i.Writable) :
    q.Legible (⟨name, .time⟩, some (.value (.instant i))) := by
  rintro g ⟨⟩
  rcases Xsd.dateTime_ne with ⟨hDecimal, hInteger, hDouble⟩
  refine ⟨.instant i, .instant i, rfl, ?_, ?_, le_refl _⟩
  · simp [CompiledQuery.decodeNode?, Codec.encodeValue,
      Value.instant, Node.dateTime, Node.typed,
      Literal.decode?, hDecimal, hInteger, hDouble,
      Instant.parse?_render h]
  · simp [Value.same, Value.instant]

/- A text is read back with its language. -/
theorem legible_text
    {name content language : String} :
    q.Legible
      (⟨name, .text⟩, some (.value (.text content language))) := by
  rintro g ⟨⟩
  refine
    ⟨.text content language, .text content language, rfl, ?_, ?_,
      le_refl _⟩
  · simp [CompiledQuery.decodeNode?, Codec.encodeValue,
      Node.lang, Literal.decode?]
  · simp [Value.same]

/- A string is read back from a column of strings. -/
theorem legible_string
    {name content : String} :
    q.Legible
      (⟨name, .string⟩, some (.value (.string content))) := by
  rintro g ⟨⟩
  refine
    ⟨.string content, .string content, rfl, ?_, ?_, le_refl _⟩
  · simp [CompiledQuery.decodeNode?, Codec.encodeValue,
      Node.string, Literal.decode?, Literal.decodePlain]
  · simp [Value.same]

/- An identifier is read back from a column of identifiers. -/
theorem legible_externalId
    {name content : String} :
    q.Legible
      (⟨name, .externalId⟩,
        some (.value (.externalId content))) := by
  rintro g ⟨⟩
  refine
    ⟨.externalId content, .externalId content, rfl, ?_, ?_,
      le_refl _⟩
  · simp [CompiledQuery.decodeNode?, Codec.encodeValue,
      Node.string, Literal.decode?, Literal.decodePlain]
  · simp [Value.same]

/- A value that is a single node is read back. -/
theorem legible_simple
    (hCodec : q.codec = codec config)
    {name : String}
    {w : Value}
    (hSimple : w.datatype ∈ simpleDatatypes)
    (h : ExpressibleValue w) :
    q.Legible (⟨name, w.datatype.kind⟩, some (.value w)) := by
  cases w with
  | entity e => exact legible_entity hCodec h
  | iri i =>
      rintro g ⟨⟩
      refine ⟨.iri i, .iri i, rfl, ?_, ?_, le_refl _⟩
      · simp [CompiledQuery.decodeNode?, Codec.encodeValue,
          hCodec, codec, decodeIri?, Value.datatype,
          Datatype.kind]
      · simp [Value.same]
  | text content language => exact legible_text
  | string content => exact legible_string
  | externalId content => exact legible_externalId
  | quantity q => simp [Value.datatype, simpleDatatypes] at hSimple
  | time t => simp [Value.datatype, simpleDatatypes] at hSimple

end Wikidata

end StatementQuery
