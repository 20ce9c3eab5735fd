import StatementQuery.Proofs.WikidataValues
import StatementQuery.Proofs.WrittenInstants

/-
  Values that a column of their kind gives back.

  The node of a value shows its number, its instant or its
  text, and nothing of a unit, of bounds or of how a time was
  given.  A column of the kind of the value gives back what
  the node shows: always, if the store uses the client's
  identifiers and the instant can be written; for a Wikidata
  store also only the entities that clients name in their
  namespace, whatever namespace the store has.

  Key definitions include:
    * `Value.shallow`
    * `CompiledQuery.ReadsBack`

  Main declarations:
    * `CompiledQuery.readsBack_iff`
    * `Wikidata.decodeIri?_eq_entity_iff`
    * `CompiledQuery.columns_read_back`
-/

------------------------------------------------------------
-- What A Node Shows
------------------------------------------------------------

namespace StatementQuery

namespace Value

/- The part of a value that its node shows. -/
def shallow : Value → Value
| .quantity q => .amount q.amount
| .time t => .instant t.instant
| v => v

/- The instant of a value, if it has one, can be written. -/
def HasWritableInstant (v : Value) : Prop :=
  ∀ t, v = .time t → t.instant.Writable

/- An entity, if the value is one, is in the clients' namespace. -/
def IsClient (v : Value) : Prop :=
  ∀ e, v = .entity e → e.iri.IsClient

end Value

/- A value and what is shown of it have the same node. -/
@[simp] theorem Codec.encodeValue_shallow
    (codec : Codec)
    (v : Value) :
    codec.encodeValue v.shallow = codec.encodeValue v := by
  cases v <;> rfl

namespace CompiledQuery

/-
  The node of a value, in a column of the kind of the value, is
  read as what it shows of the value.
-/
def ReadsBack
    (q : CompiledQuery)
    (name : String)
    (v : Value) :
    Prop :=
  ∃ n w,
    q.codec.encode? (.value v) = some n ∧
      q.decodeColumn ⟨name, v.kind⟩ n = .ok w ∧
      w.same v.shallow = true

/- What a node shows is read back if its cell is legible. -/
theorem readsBack_iff_legible
    {q : CompiledQuery}
    {name : String}
    {v : Value} :
    q.ReadsBack name v ↔
      q.Legible (⟨name, v.kind⟩, some (.value v.shallow)) := by
  constructor
  · rintro ⟨n, w, hNode, hColumn, hSame⟩ g ⟨⟩
    obtain rfl := Option.some.inj hNode
    rcases decodeColumn_eq_ok_iff.mp hColumn with
      ⟨hDecode, hKind⟩
    exact
      ⟨v.shallow, w, rfl, by simpa using hDecode, hSame, hKind⟩
  · intro h
    rcases h _ rfl with ⟨u, w, hEq, hDecode, hSame, hKind⟩
    cases hEq
    rw [Codec.encodeValue_shallow] at hDecode
    exact
      ⟨_, w, rfl, decodeColumn_eq_ok_iff.mpr ⟨hDecode, hKind⟩,
        hSame⟩

variable {q : CompiledQuery} {name : String}

/- An entity is read back if its identifier stands for it. -/
theorem legible_entity_iff
    {e : Entity} :
    q.Legible
        (⟨name, e.kind.kind⟩, some (.value (.entity e))) ↔
      q.codec.decodeIri? (q.codec.normalizeEntity e.iri)
          e.kind.kind =
        some (.entity e) := by
  constructor
  · intro h
    rcases h _ rfl with ⟨v, w, hEq, hDecode, hSame, -⟩
    cases hEq
    have hw : w = .entity e := by
      cases w <;> simp [Value.same] at hSame
      rw [hSame]
    rw [← hw]
    exact hDecode
  · rintro h g ⟨⟩
    exact
      ⟨.entity e, .entity e, rfl, h, by simp [Value.same],
        le_refl _⟩

/- A resource is read back where identifiers stay as they are. -/
theorem legible_iri
    {i : Iri}
    (h : q.codec.decodeIri? i .iri = some (.iri i)) :
    q.Legible (⟨name, .iri⟩, some (.value (.iri i))) := by
  rintro g ⟨⟩
  exact
    ⟨.iri i, .iri i, rfl, h, by simp [Value.same], le_refl _⟩

/- An instant is read back exactly if it can be written. -/
theorem legible_instant_iff
    {i : Instant} :
    q.Legible (⟨name, .time⟩, some (.value (.instant i))) ↔
      i.Writable := by
  refine ⟨?_, Wikidata.legible_instant⟩
  intro h
  rcases h _ rfl with ⟨v, w, hEq, hDecode, -, -⟩
  cases hEq
  rcases Xsd.dateTime_ne with ⟨hDecimal, hInteger, hDouble⟩
  have hParse :
      (Instant.parse? i.render).map Value.instant = some w := by
    simpa [decodeNode?, Codec.encodeValue, Value.instant,
      Node.dateTime, Node.typed, Literal.decode?, hDecimal,
      hInteger, hDouble] using hDecode
  rcases Option.map_eq_some_iff.mp hParse with ⟨j, hj, -⟩
  exact Instant.writable_of_parse?_render hj

/-
  A value is read back if its instant can be written and, for
  an entity, the identifier in the store stands for it.
-/
theorem readsBack_iff
    (hIri : ∀ i, q.codec.decodeIri? i .iri = some (.iri i))
    (v : Value) :
    q.ReadsBack name v ↔
      v.HasWritableInstant ∧
        ∀ e, v = .entity e →
          q.codec.decodeIri? (q.codec.normalizeEntity e.iri)
              e.kind.kind =
            some (.entity e) := by
  rw [readsBack_iff_legible]
  constructor
  · intro h
    refine ⟨?_, ?_⟩
    · rintro t rfl
      exact legible_instant_iff.mp h
    · rintro e rfl
      exact legible_entity_iff.mp h
  · rintro ⟨hInstant, hEntity⟩
    cases v with
    | entity e => exact legible_entity_iff.mpr (hEntity e rfl)
    | iri i => exact legible_iri (hIri i)
    | text content language => exact Wikidata.legible_text
    | string content => exact Wikidata.legible_string
    | externalId content => exact Wikidata.legible_externalId
    | quantity a => exact Wikidata.legible_amount
    | time t => exact legible_instant_iff.mpr (hInstant t rfl)

end CompiledQuery

end StatementQuery

------------------------------------------------------------
-- The Two Kinds Of Stores
------------------------------------------------------------

namespace StatementQuery

/- An identifier that is kept stands for any entity. -/
theorem Codec.decodeVerbatim?_entity
    (e : Entity) :
    decodeVerbatim? e.iri e.kind.kind = some (.entity e) := by
  rcases e with ⟨kind, i⟩
  cases kind <;> rfl

namespace Wikidata

/- A column of entities gives entities as clients name them. -/
theorem decodeIri?_entityKind
    (config : WikidataConfig)
    (i : Iri)
    (kind : EntityKind) :
    decodeIri? config i kind.kind =
      (i.localName? config.entityNamespace).map
        (clientEntity kind) := by
  cases kind <;> rfl

/- A stored entity is found again if clients can name it. -/
theorem decodeIri?_eq_entity_iff
    (config : WikidataConfig)
    (e : Entity) :
    decodeIri? config
        (e.iri.rebase entityNamespace config.entityNamespace)
        e.kind.kind =
        some (.entity e) ↔
      e.iri.IsClient := by
  rw [decodeIri?_entityKind]
  constructor
  · intro h
    rcases Option.map_eq_some_iff.mp h with
      ⟨localName, -, hEntity⟩
    refine ⟨localName, ?_⟩
    rw [← Value.entity.inj hEntity]
  · rintro ⟨localName, hIri⟩
    rcases e with ⟨kind, i⟩
    simp only at hIri
    subst hIri
    simp [clientEntity]

end Wikidata

/-
  A store that keeps identifiers gives back every value whose
  instant can be written.  A Wikidata store, whatever its
  namespace, gives back those of them that are no entities or
  are entities in the namespace of clients.
-/
theorem CompiledQuery.columns_read_back
    (q : CompiledQuery)
    (name : String)
    (v : Value) :
    (q.codec = .verbatim →
        (q.ReadsBack name v ↔ v.HasWritableInstant)) ∧
      ∀ config, q.codec = Wikidata.codec config →
        (q.ReadsBack name v ↔
          v.HasWritableInstant ∧ v.IsClient) := by
  constructor
  · intro hCodec
    have hIri :
        ∀ i, q.codec.decodeIri? i .iri = some (.iri i) := by
      intro i
      rw [hCodec]
      rfl
    rw [readsBack_iff hIri v, hCodec]
    exact
      and_iff_left fun e _ => Codec.decodeVerbatim?_entity e
  · intro config hCodec
    have hIri :
        ∀ i, q.codec.decodeIri? i .iri = some (.iri i) := by
      intro i
      rw [hCodec]
      rfl
    have hEntity :
        ∀ e : Entity,
          q.codec.decodeIri? (q.codec.normalizeEntity e.iri)
              e.kind.kind =
              some (.entity e) ↔
            e.iri.IsClient := by
      intro e
      rw [hCodec]
      exact Wikidata.decodeIri?_eq_entity_iff config e
    rw [readsBack_iff hIri v]
    simp only [hEntity, Value.IsClient]

/- A query of a store with conventions, without any branch. -/
def CompiledQuery.ofCodec (codec : Codec) : CompiledQuery where
  query := ⟨false, none, []⟩
  plans := []
  branchVariable := "branch"
  defaultLanguage := "en"
  codec := codec

/- One and a half units, in bounds. -/
def measuredAmount : Value :=
  .quantity
    { amount := ⟨150, 2⟩
      unit := some ⟨"http://www.wikidata.org/entity/Q11573"⟩
      lower := some ⟨14, 1⟩
      upper := some ⟨16, 1⟩ }

/- The number is read back, without its unit and its bounds. -/
theorem CompiledQuery.columns_read_back_measuredAmount :
    (ofCodec .verbatim).ReadsBack "amount" measuredAmount ∧
      (ofCodec (Wikidata.codec ⟨"http://store/", "p:"⟩)).ReadsBack
        "amount" measuredAmount := by
  constructor
  · apply
      ((columns_read_back (ofCodec .verbatim) "amount"
        measuredAmount).1 rfl).mpr
    rintro t ⟨⟩
  · apply
      ((columns_read_back
        (ofCodec (Wikidata.codec ⟨"http://store/", "p:"⟩))
        "amount" measuredAmount).2 _ rfl).mpr
    constructor
    · rintro t ⟨⟩
    · rintro e ⟨⟩

end StatementQuery
