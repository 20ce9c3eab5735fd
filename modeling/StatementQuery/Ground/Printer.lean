import StatementQuery.Ground.Basic
import StatementQuery.Decimal.Literal
import StatementQuery.Instant.Literal
import StatementQuery.Text.Quoted

/-
  The text of ground terms.

  Key definitions include:
    * `Iri.render`
    * `Value.render`
    * `Snak.render`
    * `Statement.render`
    * `Ground.render`
-/

------------------------------------------------------------
-- Text Of Ground Terms
------------------------------------------------------------

namespace StatementQuery

/- An identifier in angle brackets. -/
def Iri.render (i : Iri) : String :=
  "<" ++ i.text ++ ">"

/- A name applied to arguments, with commas between them. -/
def renderApplication
    (name : String)
    (args : List String) :
    String :=
  name ++ "(" ++ ", ".intercalate args ++ ")"

/- A component, or a blank if it is absent. -/
def renderOption : Option String → String
| some s => s
| none => "_"

/- An entity. -/
def Entity.render (e : Entity) : String :=
  renderApplication e.kind.kind.name [e.iri.render]

/- An item. -/
def Iri.renderItem (i : Iri) : String :=
  Entity.render ⟨.item, i⟩

/- A property. -/
def Iri.renderProperty (i : Iri) : String :=
  Entity.render ⟨.property, i⟩

/- The optional components, unless all of them are absent. -/
def renderTail (components : List (Option String)) : List String :=
  if components.all Option.isNone then []
  else components.map renderOption

/- A quantity. -/
def Quantity.render (q : Quantity) : String :=
  renderApplication "Quantity"
    (q.amount.render ::
      renderTail
        [q.unit.map Iri.renderItem,
          q.lower.map Decimal.render,
          q.upper.map Decimal.render])

/- A time. -/
def Time.render (t : Time) : String :=
  renderApplication "Time"
    (t.instant.render ::
      renderTail
        [t.precision.map fun p =>
            String.ofList (Numeral.digits p.code),
          t.timezone.map fun z =>
            String.ofList (Numeral.signed z.toInt),
          t.calendar.map Iri.renderItem])

/- A value. -/
def Value.render : Value → String
| .entity e => e.render
| .iri i => i.render
| .text content language =>
    renderApplication "Text"
      [Text.quoted content, Text.quoted language]
| .string content => Text.quoted content
| .externalId content =>
    renderApplication "ExternalId" [Text.quoted content]
| .quantity q => q.render
| .time t => t.render

/- A snak. -/
def Snak.render : Snak → String
| .value p v =>
    renderApplication "ValueSnak" [p.renderProperty, v.render]
| .someValue p =>
    renderApplication "SomeValueSnak" [p.renderProperty]
| .noValue p =>
    renderApplication "NoValueSnak" [p.renderProperty]

/- A statement. -/
def Statement.render (s : Statement) : String :=
  renderApplication "Statement"
    [s.subject.render, s.snak.render]

/- A ground term. -/
def Ground.render : Ground → String
| .value v => v.render
| .snak s => s.render
| .statement s => s.render

end StatementQuery
