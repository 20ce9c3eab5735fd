import StatementQuery.Kind
import StatementQuery.Decimal.Basic
import StatementQuery.Instant.Basic

/-
  Ground values, snaks and statements.

  A snak says something about a property: that it has a given
  value, that it has some value, or that it has none.  A
  statement says a snak of an entity.  `Ground` collects all
  three layers; its members contain no variables.

  Key definitions include:
    * `Entity`
    * `Quantity`
    * `Time`
    * `Value`
    * `Snak`
    * `Statement`
    * `Ground`
    * `Ground.same`
-/

------------------------------------------------------------
-- Entities And Compound Values
------------------------------------------------------------

namespace StatementQuery

/- An identifier of a resource. -/
structure Iri where
  text : String
deriving DecidableEq

/- An entity of a knowledge base. -/
structure Entity where
  kind : EntityKind
  iri : Iri
deriving DecidableEq

/- An amount with an optional unit and optional bounds. -/
structure Quantity where
  amount : Decimal
  unit : Option Iri := none
  lower : Option Decimal := none
  upper : Option Decimal := none
deriving DecidableEq

namespace Quantity

/- Whether two optional decimals are the same number. -/
def sameBound : Option Decimal → Option Decimal → Bool
| none, none => true
| some d, some e => d.same e
| _, _ => false

/- Equality of quantities, with decimals taken as numbers. -/
def same (q r : Quantity) : Bool :=
  q.amount.same r.amount && q.unit = r.unit &&
    sameBound q.lower r.lower && sameBound q.upper r.upper

end Quantity

/- How precisely a time is known. -/
inductive TimePrecision where
| billionYears
| hundredMillionYears
| tenMillionYears
| millionYears
| hundredThousandYears
| tenThousandYears
| millennium
| century
| decade
| year
| month
| day
| hour
| minute
| second
deriving DecidableEq

namespace TimePrecision

/- All precisions, in the order of their codes. -/
def all : List TimePrecision :=
  [.billionYears, .hundredMillionYears, .tenMillionYears,
    .millionYears, .hundredThousandYears, .tenThousandYears,
    .millennium, .century, .decade, .year, .month, .day,
    .hour, .minute, .second]

/- The code of a precision. -/
def code : TimePrecision → Nat
| .billionYears => 0
| .hundredMillionYears => 1
| .tenMillionYears => 2
| .millionYears => 3
| .hundredThousandYears => 4
| .tenThousandYears => 5
| .millennium => 6
| .century => 7
| .decade => 8
| .year => 9
| .month => 10
| .day => 11
| .hour => 12
| .minute => 13
| .second => 14

/- The precision of a code. -/
def ofCode? (code : Nat) : Option TimePrecision :=
  all[code]?

/- The name of a precision. -/
def name : TimePrecision → String
| .billionYears => "BillionYears"
| .hundredMillionYears => "HundredMillionYears"
| .tenMillionYears => "TenMillionYears"
| .millionYears => "MillionYears"
| .hundredThousandYears => "HundredThousandYears"
| .tenThousandYears => "TenThousandYears"
| .millennium => "Millennium"
| .century => "Century"
| .decade => "Decade"
| .year => "Year"
| .month => "Month"
| .day => "Day"
| .hour => "Hour"
| .minute => "Minute"
| .second => "Second"

end TimePrecision

/- An instant with what is known about how it was given. -/
structure Time where
  instant : Instant
  precision : Option TimePrecision := none
  timezone : Option Int32 := none
  calendar : Option Iri := none
deriving DecidableEq

end StatementQuery

------------------------------------------------------------
-- Values
------------------------------------------------------------

namespace StatementQuery

/- A value that a property can have. -/
inductive Value where
| entity (e : Entity)
| iri (i : Iri)
| text (content language : String)
| string (content : String)
| externalId (content : String)
| quantity (q : Quantity)
| time (t : Time)
deriving DecidableEq

namespace Value

/- An item. -/
def item (i : Iri) : Value :=
  .entity ⟨.item, i⟩

/- A property, as a value. -/
def property (i : Iri) : Value :=
  .entity ⟨.property, i⟩

/- A lexeme. -/
def lexeme (i : Iri) : Value :=
  .entity ⟨.lexeme, i⟩

/- An amount without unit and bounds. -/
def amount (d : Decimal) : Value :=
  .quantity ⟨d, none, none, none⟩

/- An instant of which nothing else is known. -/
def instant (i : Instant) : Value :=
  .time ⟨i, none, none, none⟩

/- The datatype of a value. -/
def datatype : Value → Datatype
| .entity e => .entity e.kind
| .iri _ => .iri
| .text _ _ => .text
| .string _ => .string
| .externalId _ => .externalId
| .quantity _ => .quantity
| .time _ => .time

/- The kind of a value. -/
def kind (v : Value) : Kind :=
  v.datatype.kind

/- Equality of values, with decimals taken as numbers. -/
def same : Value → Value → Bool
| .quantity q, .quantity r => q.same r
| v, w => v = w

end Value

end StatementQuery

------------------------------------------------------------
-- Snaks And Statements
------------------------------------------------------------

namespace StatementQuery

/- What is said about a property. -/
inductive Snak where
| value (property : Iri) (v : Value)
| someValue (property : Iri)
| noValue (property : Iri)
deriving DecidableEq

namespace Snak

/- The property that a snak is about. -/
def property : Snak → Iri
| .value p _ => p
| .someValue p => p
| .noValue p => p

/- The kind of a snak. -/
def kind : Snak → Kind
| .value _ _ => .valueSnak
| .someValue _ => .someValueSnak
| .noValue _ => .noValueSnak

/- Equality of snaks, with decimals taken as numbers. -/
def same : Snak → Snak → Bool
| .value p v, .value q w => p = q && v.same w
| s, t => s = t

end Snak

/- A snak said of an entity. -/
structure Statement where
  subject : Entity
  snak : Snak
deriving DecidableEq

namespace Statement

/- Equality of statements, with decimals taken as numbers. -/
def same (s t : Statement) : Bool :=
  s.subject = t.subject && s.snak.same t.snak

end Statement

end StatementQuery

------------------------------------------------------------
-- Ground Terms
------------------------------------------------------------

namespace StatementQuery

/- A term without variables. -/
inductive Ground where
| value (v : Value)
| snak (s : Snak)
| statement (s : Statement)
deriving DecidableEq

namespace Ground

/- The kind of a ground term. -/
def kind : Ground → Kind
| .value v => v.kind
| .snak s => s.kind
| .statement _ => .statement

/- The datatype of a ground term that is a value. -/
def datatype? : Ground → Option Datatype
| .value v => some v.datatype
| _ => none

/- The identifier of an entity or of an IRI value. -/
def iri? : Ground → Option Iri
| .value (.entity e) => some e.iri
| .value (.iri i) => some i
| _ => none

/- The property of a snak. -/
def snakProperty? : Ground → Option Iri
| .snak s => some s.property
| _ => none

/- Equality of ground terms, decimals taken as numbers. -/
def same : Ground → Ground → Bool
| .value v, .value w => v.same w
| .snak s, .snak t => s.same t
| .statement s, .statement t => s.same t
| _, _ => false

/- The amount `d` as an argument. -/
def amountArg (d : Decimal) : Option Ground :=
  some (.value (.amount d))

/- The item named by `i` as an argument. -/
def itemArg (i : Iri) : Option Ground :=
  some (.value (.item i))

/- The constructor arguments of a value, if it has any. -/
def valueArgs? : Value → Option (List (Option Ground))
| .entity e => some [some (.value (.iri e.iri))]
| .iri i => some [some (.value (.string i.text))]
| .text content language =>
    some
      [some (.value (.string content)),
        some (.value (.string language))]
| .string _ => none
| .externalId _ => none
| .quantity q =>
    some
      [amountArg q.amount, q.unit.bind itemArg,
        q.lower.bind amountArg, q.upper.bind amountArg]
| .time t =>
    some
      [some (.value (.instant t.instant)),
        t.precision.bind fun p => amountArg (.ofInt p.code),
        t.timezone.bind fun z => amountArg (.ofInt z.toInt),
        t.calendar.bind itemArg]

/- The constructor arguments of a snak. -/
def snakArgs : Snak → List (Option Ground)
| .value p v => [some (.value (.property p)), some (.value v)]
| .someValue p => [some (.value (.property p))]
| .noValue p => [some (.value (.property p))]

/- The constructor arguments of a ground term, if any. -/
def args? : Ground → Option (List (Option Ground))
| .value v => valueArgs? v
| .snak s => some (snakArgs s)
| .statement s =>
    some [some (.value (.entity s.subject)), some (.snak s.snak)]

end Ground

end StatementQuery
