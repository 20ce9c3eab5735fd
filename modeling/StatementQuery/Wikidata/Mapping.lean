import StatementQuery.Wikidata.Claim

/-
  The mapping of Wikidata stores.

  There is one entry for each datatype of simple values, one
  for quantities, one for times, and one each for unknown and
  for missing values.

  Key definitions include:
    * `Wikidata.simple`
    * `Wikidata.quantity`
    * `Wikidata.time`
    * `Wikidata.registrations`
    * `Wikidata.mapping`
-/

------------------------------------------------------------
-- Patterns
------------------------------------------------------------

namespace StatementQuery

namespace Wikidata

/- A variable as an argument. -/
def slot (name : String) (k : Kind) : Option Term :=
  some (.var ⟨name, k⟩)

/- The statements with a snak. -/
def statementPattern (snak : Term) : Term :=
  .app .statement [slot "subject" .entity, some snak]

/- The statements with a value. -/
def valuePattern (value : Term) : Term :=
  statementPattern
    (.app .valueSnak [slot "property" .property, some value])

/- The statements with a simple value of a datatype. -/
def simplePattern (d : Datatype) : Term :=
  valuePattern (.var ⟨"value", d.kind⟩)

/- The statements with a quantity. -/
def quantityPattern : Term :=
  valuePattern
    (.app .quantity
      [slot "amount" .quantity, slot "unit" .item,
        slot "lower" .quantity, slot "upper" .quantity])

/- The statements with a time. -/
def timePattern : Term :=
  valuePattern
    (.app .time
      [slot "instant" .time, slot "precision" .quantity,
        slot "timezone" .quantity, slot "calendar" .item])

/- The statements with an unknown value. -/
def someValuePattern : Term :=
  statementPattern
    (.app .someValueSnak [slot "property" .property])

/- The statements that say there is no value. -/
def noValuePattern : Term :=
  statementPattern
    (.app .noValueSnak [slot "property" .property])

end Wikidata

end StatementQuery

------------------------------------------------------------
-- Emissions
------------------------------------------------------------

namespace StatementQuery

namespace Wikidata

/- Find a simple value. -/
def emitSimple (config : WikidataConfig) (d : Datatype) : Emission :=
  fun context args => do
    let claim ← Claim.start config (some d) context args
    let value ← context.node (← args.get "value")
    let predicate ← claim.link config .value
    Group.triple claim.statement predicate value
    requireKnown value
    restrictLanguage d value context.constraints.language
    pure claim.rank

/- Find the node of a deep value. -/
def deepValue
    (config : WikidataConfig)
    (claim : Claim)
    (name : String) :
    GroupM Node := do
  let predicate ← claim.link config .deepValue
  let deep ← Group.freshVar name
  Group.triple claim.statement predicate deep
  pure deep

/- The unit of quantities without a unit. -/
def noUnit (config : WikidataConfig) : Node :=
  .iri (Iri.inNamespace config.entityNamespace "Q199")

/- Find a quantity. -/
def emitQuantity (config : WikidataConfig) : Emission :=
  fun context args => do
    let claim ← Claim.start config (some .quantity) context args
    let deep ← deepValue config claim "quantity"
    let amount ← context.node (← args.get "amount")
    Group.triple deep (ontology "quantityAmount") amount
    component context.node deep "quantityUnit"
      (some (noUnit config)) (← args.get "unit")
    component context.node deep "quantityLowerBound" none
      (← args.get "lower")
    component context.node deep "quantityUpperBound" none
      (← args.get "upper")
    pure claim.rank

/- Find a time. -/
def emitTime (config : WikidataConfig) : Emission :=
  fun context args => do
    let claim ← Claim.start config (some .time) context args
    let deep ← deepValue config claim "time"
    let instant ← context.node (← args.get "instant")
    Group.triple deep (ontology "timeValue") instant
    component (integerNode context) deep "timePrecision" none
      (← args.get "precision")
    component (integerNode context) deep "timeTimezone" none
      (← args.get "timezone")
    component context.node deep "timeCalendarModel" none
      (← args.get "calendar")
    pure claim.rank

/- Find an unknown value. -/
def emitSomeValue (config : WikidataConfig) : Emission :=
  fun context args => do
    let claim ← Claim.start config none context args
    let predicate ← claim.link config .value
    let placeholder ← Group.freshVar "some"
    Group.triple claim.statement predicate placeholder
    Group.filter (isUnknown placeholder)
    pure claim.rank

/- Find a statement that there is no value. -/
def emitNoValue (config : WikidataConfig) : Emission :=
  fun context args => do
    let claim ← Claim.start config none context args
    let type ← claim.link config .noValue
    Group.triple claim.statement (.iri Rdf.type) type
    pure claim.rank

end Wikidata

end StatementQuery

------------------------------------------------------------
-- The Mapping
------------------------------------------------------------

namespace StatementQuery

namespace Wikidata

/- The datatypes whose values are single nodes. -/
def simpleDatatypes : List Datatype :=
  [.entity .item, .entity .property, .entity .lexeme, .iri,
    .text, .string, .externalId]

/- The entry of a datatype of simple values. -/
def simple
    (config : WikidataConfig)
    (d : Datatype) :
    Registration where
  patterns := [simplePattern d]
  emit := emitSimple config d

/- The entry of quantities. -/
def quantity (config : WikidataConfig) : Registration where
  patterns := [quantityPattern]
  emit := emitQuantity config

/- The entry of times. -/
def time (config : WikidataConfig) : Registration where
  patterns := [timePattern]
  emit := emitTime config

/- The entry of unknown values. -/
def someValue (config : WikidataConfig) : Registration where
  patterns := [someValuePattern]
  emit := emitSomeValue config

/- The entry of missing values. -/
def noValue (config : WikidataConfig) : Registration where
  patterns := [noValuePattern]
  emit := emitNoValue config

/- All entries. -/
def registrations (config : WikidataConfig) : List Registration :=
  simpleDatatypes.map (simple config) ++
    [quantity config, time config, someValue config,
      noValue config]

/- The mapping of a Wikidata store. -/
def mapping (config : WikidataConfig) : Except MappingError Mapping :=
  Mapping.build (codec config) (registrations config)

end Wikidata

end StatementQuery
